/-
  Connect.Sqs.Store — what the polling workers share: the poll lock in Valkey, the
  sqs_events table, and the deliveries SQS has made.

  One operation is one statement with its commit, except that `process_s3_event` probes
  and inserts in one transaction: under READ COMMITTED the SELECT and the commit of the
  INSERT are two moments, hence two operations. The failure recorder's INSERT and UPDATE
  commit together and are one. An INSERT goes through only with values PostgreSQL takes,
  and an operation that raises leaves the store as it was.

  SQS hands out any messages at any time, a message again as often as it likes, but every
  delivery under a receipt handle of its own. The queue, credential and setting tables
  and LucidLink answer as they please.
-/

import Connect.Await.Pool
import Connect.Sqs.Parse

namespace Connect.Sqs

open Await

/-- seconds, in ms. -/
def pollLockTtl : Nat := 60 * 1000

inductive EventStatus where
  | pending
  | processing
  | completed
  | skipped
  | failed
  deriving DecidableEq, Repr

def EventStatus.terminal : EventStatus → Bool
  | .completed | .skipped | .failed => true
  | .pending | .processing => false

/-- A row's uuid4: the process that drew it, and which of its draws. -/
structure EventId where
  worker : Nat
  draw : Nat
  deriving DecidableEq, Repr

/-- What `exists_for_message` asks for. -/
structure EventKey where
  messageId : String
  queueId : Nat
  objectKey : String
  deriving DecidableEq, Repr

structure SqsEvent where
  id : EventId
  queueId : Nat
  messageId : String
  eventType : String
  bucket : String
  objectKey : String
  objectSize : Option Int
  status : EventStatus
  errorMessage : Option String
  deriving DecidableEq, Repr

def SqsEvent.key (row : SqsEvent) : EventKey := ⟨row.messageId, row.queueId, row.objectKey⟩

structure SqsQueue where
  id : Nat
  queueUrl : String
  name : String
  region : String
  datastoreId : String
  filespaceId : String
  importPrefix : String
  userId : Option String
  deriving DecidableEq, Repr

structure SqsCreds where
  accessKey : String
  secretKey : String
  region : String
  deriving DecidableEq, Repr

structure Message where
  messageId : Option String
  receiptHandle : Option String
  body : Option String
  deriving DecidableEq, Repr

inductive SqsOp where
  | acquirePollLock (workerId : Nat)
  | releasePollLock (workerId : Nat)
  | listActive
  | getSqsCredentials (userId : Option String)
  | setError (queueId : Nat) (errorMessage : String)
  | markPolled (queueId : Nat)
  | newSqsService (accessKey secretKey region : String)
  | receiveMessages (queue : SqsQueue)
  | deleteMessage (queue : SqsQueue) (receiptHandle : String)
  | existsForMessage (key : EventKey)
  /-- The INSERT of a pending row, with the commit. -/
  | createEvent (queueId : Nat) (messageId : String) (event : S3Event)
  /-- The failure recorder's INSERT and UPDATE, with the commit. -/
  | recordFailed (queueId : Nat) (messageId : String) (event : S3Event) (errorMessage : String)
  | updateStatus (eventId : EventId) (status : EventStatus) (errorMessage : Option String)
  | getForDatastoreUser (datastoreId : String) (userId : Option String)
  | loadLlToken (userId : String)
  | getUserToken (userId : String)
  | getLucidlinkToken
  | getUserSetting (userId key : String)
  /-- `LucidLinkClient(...)` and its `configure`. -/
  | newClient (apiHost token filespaceId datastoreId : String)
  | ensureStructure (llPath : String)
  | importFile (objectKey llPath : String)
  | close

/-- What an operation returns; of the DataStore row, whether there is one. -/
def SqsOp.Ret : SqsOp → Type
  | .acquirePollLock _ | .releasePollLock _ | .setError _ _ | .markPolled _
  | .existsForMessage _ | .updateStatus _ _ _
  | .getForDatastoreUser _ _ | .deleteMessage _ _ => Bool
  | .listActive => List SqsQueue
  | .getSqsCredentials _ => Option SqsCreds
  | .receiveMessages _ => List Message
  | .createEvent _ _ _ | .recordFailed _ _ _ _ => EventId
  | .loadLlToken _ | .getUserToken _ | .getLucidlinkToken | .getUserSetting _ _ => Option String
  | .ensureStructure _ => Bool × String
  | .importFile _ _ => Nat × String
  | .newSqsService _ _ _ | .newClient _ _ _ _ | .close => Unit

abbrev sqsSig : Sig := ⟨SqsOp, SqsOp.Ret⟩

/-- Whether the code awaits it, so that it can be cancelled there; boto3, the client's
    constructor and the secrets file are called, not awaited. -/
def SqsOp.awaited : SqsOp → Bool
  | .newSqsService _ _ _ | .receiveMessages _ | .deleteMessage _ _
  | .getUserToken _ | .getLucidlinkToken | .newClient _ _ _ _ => false
  | _ => true

/-- One message handed out once. -/
structure Delivery where
  queueId : Nat
  receiptHandle : String
  messageId : String
  body : String
  deriving DecidableEq, Repr

structure Store where
  now : Nat
  /-- The worker id in the key, and when the key expires. -/
  lock : Option (Nat × Nat)
  events : List SqsEvent
  deliveries : List Delivery
  deriving DecidableEq, Repr

/-! ## The poll lock -/

/-- The value of the key, unless it is gone or has expired. -/
def Store.holder (s : Store) : Option Nat :=
  match s.lock with
  | some (workerId, expires) => if s.now < expires then some workerId else none
  | none => none

/-! ## The sqs_events table -/

/-- A value for a TEXT column. -/
def toText : Json → Option String
  | .str s => if s.toList.any (·.toNat == 0) then none else some s
  | _ => none

/-- A value for a nullable BIGINT column. -/
def toBigint : Json → Option (Option Int)
  | .null => some none
  | .bool b => some (some (if b then 1 else 0))
  | .int n => if -9223372036854775808 ≤ n ∧ n ≤ 9223372036854775807 then some (some n) else none
  | _ => none

/-- The row of an INSERT. -/
def newRow (id : EventId) (queueId : Nat) (messageId : String) (event : S3Event) (status : EventStatus)
    (errorMessage : Option String) : Option SqsEvent := do
  let messageId ← toText (.str messageId)
  let eventType ← toText event.eventType
  let bucket ← toText event.bucket
  let objectKey ← toText (.str event.key)
  let objectSize ← toBigint event.size
  return { id, queueId, messageId, eventType, bucket, objectKey, objectSize, status, errorMessage }

def Store.existsForMessage (s : Store) (key : EventKey) : Bool := s.events.any (·.key == key)

def Store.insert (s : Store) (row : SqsEvent) : Store := { s with events := row :: s.events }

def patch (eventId : EventId) (status : EventStatus) (errorMessage : Option String) (row : SqsEvent) : SqsEvent :=
  if row.id = eventId then { row with status := status, errorMessage := errorMessage <|> row.errorMessage } else row

def Store.updateStatus (s : Store) (eventId : EventId) (status : EventStatus)
    (errorMessage : Option String) : Store :=
  { s with events := s.events.map (patch eventId status errorMessage) }

/-- A uuid that process `pid` draws is in no row yet. -/
def Store.fresh (s : Store) (pid : Nat) (id : EventId) : Bool := id.worker == pid && s.events.all (·.id != id)

def Store.inserts (s : Store) (pid : Nat) (id : EventId) (row : Option SqsEvent) : Option Store :=
  match row with
  | some row => if s.fresh pid id then some (s.insert row) else none
  | none => none

/-! ## Deliveries -/

def delivery (queue : SqsQueue) (message : Message) : Delivery :=
  ⟨queue.id, message.receiptHandle.getD "", message.messageId.getD "", message.body.getD ""⟩

/-- Each under a handle of its own. -/
def newHandles (known : List Delivery) : List Delivery → Bool
  | [] => true
  | d :: ds => known.all (·.receiptHandle != d.receiptHandle) && newHandles (d :: known) ds

/-- At most ten messages. -/
def Store.receive (s : Store) (queue : SqsQueue) (messages : List Message) : Option Store :=
  let ds := messages.map (delivery queue)
  if messages.length ≤ 10 ∧ newHandles s.deliveries ds = true then
    some { s with deliveries := ds.reverse ++ s.deliveries }
  else none

/-! ## Operations -/

/-- One operation of process `pid`. -/
def Store.exec (pid : Nat) (s : Store) : (o : SqsOp) → Except Exc o.Ret → Option Store
  | o, .error e => if e = .cancelled ∧ o.awaited = false then none else some s
  | .acquirePollLock workerId, .ok (acquired : Bool) =>
    match s.holder with
    | none => if acquired then some { s with lock := some (workerId, s.now + pollLockTtl) } else none
    | some _ => if acquired then none else some s
  | .releasePollLock workerId, .ok (released : Bool) =>
    if s.holder = some workerId then (if released then some { s with lock := none } else none)
    else (if released then none else some s)
  | .existsForMessage key, .ok (found : Bool) => if found = s.existsForMessage key then some s else none
  | .createEvent queueId messageId event, .ok (id : EventId) =>
    s.inserts pid id (newRow id queueId messageId event .pending none)
  | .recordFailed queueId messageId event errorMessage, .ok (id : EventId) =>
    s.inserts pid id (newRow id queueId messageId event .failed (some errorMessage))
  | .updateStatus eventId status errorMessage, .ok (found : Bool) =>
    if found = s.events.any (·.id == eventId) then some (s.updateStatus eventId status errorMessage) else none
  | .receiveMessages queue, .ok (messages : List Message) => s.receive queue messages
  | _, .ok _ => some s

/-- Only the tables of others and the services outside answer it. -/
def SqsOp.outside : SqsOp → Bool
  | .acquirePollLock _ | .releasePollLock _ | .existsForMessage _ | .createEvent _ _ _ | .recordFailed _ _ _ _
  | .updateStatus _ _ _ | .receiveMessages _ => false
  | _ => true

/-- What an operation can do to the store. -/
inductive Did (pid : Nat) (s : Store) : (o : SqsOp) → Except Exc o.Ret → Store → Prop
  | acquired {workerId : Nat} : s.holder = none →
      Did pid s (.acquirePollLock workerId) (.ok true) { s with lock := some (workerId, s.now + pollLockTtl) }
  | refused {workerId holder : Nat} : s.holder = some holder → Did pid s (.acquirePollLock workerId) (.ok false) s
  | released {workerId : Nat} : s.holder = some workerId →
      Did pid s (.releasePollLock workerId) (.ok true) { s with lock := none }
  | notOwned {workerId : Nat} : s.holder ≠ some workerId → Did pid s (.releasePollLock workerId) (.ok false) s
  | probed {key : EventKey} : Did pid s (.existsForMessage key) (.ok (s.existsForMessage key)) s
  | created {queueId : Nat} {messageId : String} {event : S3Event} {id : EventId} {row : SqsEvent} :
      newRow id queueId messageId event .pending none = some row → s.fresh pid id = true →
      Did pid s (.createEvent queueId messageId event) (.ok id) (s.insert row)
  | recorded {queueId : Nat} {messageId : String} {event : S3Event} {errorMessage : String} {id : EventId}
      {row : SqsEvent} :
      newRow id queueId messageId event .failed (some errorMessage) = some row → s.fresh pid id = true →
      Did pid s (.recordFailed queueId messageId event errorMessage) (.ok id) (s.insert row)
  | updated {eventId : EventId} {status : EventStatus} {errorMessage : Option String} {found : Bool} :
      Did pid s (.updateStatus eventId status errorMessage) (.ok found) (s.updateStatus eventId status errorMessage)
  | received {queue : SqsQueue} {messages : List Message} :
      newHandles s.deliveries (messages.map (delivery queue)) = true →
      Did pid s (.receiveMessages queue) (.ok messages)
      { s with deliveries := (messages.map (delivery queue)).reverse ++ s.deliveries }
  | raised {o : SqsOp} {e : Exc} : (e = .cancelled → o.awaited = true) → Did pid s o (.error e) s
  | answered {o : SqsOp} {r : Except Exc o.Ret} : o.outside = true → Did pid s o r s

theorem inserts_some {s s' : Store} {pid : Nat} {id : EventId} {row : Option SqsEvent}
    (h : s.inserts pid id row = some s') :
    ∃ r, row = some r ∧ s.fresh pid id = true ∧ s' = s.insert r := by
  unfold Store.inserts at h
  split at h
  · split at h
    · cases h; exact ⟨_, rfl, ‹_›, rfl⟩
    · cases h
  · cases h

theorem exec_did {pid : Nat} {s s' : Store} {o : SqsOp} {r : Except Exc o.Ret}
    (h : s.exec pid o r = some s') : Did pid s o r s' := by
  rcases r with e | v
  · by_cases he : e = .cancelled ∧ o.awaited = false
    · simp [Store.exec, he] at h
    · simp only [Store.exec, he, if_false] at h
      cases h
      exact .raised fun hc => by simpa [hc] using he
  cases o with
  | acquirePollLock workerId =>
    simp only [Store.exec] at h
    split at h <;> cases v <;> cases h
    · exact .acquired ‹_›
    · exact .refused ‹_›
  | releasePollLock workerId =>
    simp only [Store.exec] at h
    split at h <;> cases v <;> cases h
    · exact .released ‹_›
    · exact .notOwned ‹_›
  | existsForMessage key =>
    simp only [Store.exec] at h
    split at h
    · cases h; subst v; exact .probed
    · cases h
  | createEvent queueId messageId event =>
    obtain ⟨row, hrow, hf, rfl⟩ := inserts_some h
    exact .created hrow hf
  | recordFailed queueId messageId event errorMessage =>
    obtain ⟨row, hrow, hf, rfl⟩ := inserts_some h
    exact .recorded hrow hf
  | updateStatus eventId status errorMessage =>
    simp only [Store.exec] at h
    split at h
    · cases h; exact .updated
    · cases h
  | receiveMessages queue =>
    simp only [Store.exec, Store.receive] at h
    split at h
    · rename_i hn; cases h; exact .received hn.2
    · cases h
  | _ => cases h; exact .answered rfl

theorem did_raised {pid : Nat} {s s' : Store} {o : SqsOp} {e : Exc} (h : Did pid s o (.error e) s') : s' = s := by
  cases h <;> rfl

theorem did_outside {pid : Nat} {s s' : Store} {o : SqsOp} {r : Except Exc o.Ret} (ho : o.outside = true)
    (h : Did pid s o r s') : s' = s := by
  cases h <;> first | rfl | cases ho

/-- A probe answers what is in the table. -/
theorem exec_probe (pid : Nat) {s s' : Store} {key : EventKey} {found : Bool}
    (h : s.exec pid (.existsForMessage key) (.ok found) = some s') : found = s.existsForMessage key ∧ s' = s := by
  simp only [Store.exec] at h
  split at h
  · cases h; exact ⟨‹_›, rfl⟩
  · cases h

/-- What an INSERT takes from the event. -/
theorem newRow_some {id : EventId} {queueId : Nat} {messageId : String} {event : S3Event} {status : EventStatus}
    {errorMessage : Option String} {row : SqsEvent}
    (h : newRow id queueId messageId event status errorMessage = some row) :
    row.id = id ∧ row.key = ⟨messageId, queueId, event.key⟩ ∧ row.status = status := by
  have htext : ∀ {s t : String}, toText (.str s) = some t → t = s := by
    intro s t ht
    simp only [toText] at ht
    split at ht
    · cases ht
    · cases ht; rfl
  unfold newRow at h
  simp only [Option.bind_eq_bind, Option.bind_eq_some_iff, pure] at h
  obtain ⟨m, hm, ty, _, b, _, k, hk, sz, _, heq⟩ := h
  cases heq
  exact ⟨rfl, by rw [SqsEvent.key, htext hm, htext hk], rfl⟩

theorem fresh_iff {s : Store} {pid : Nat} {id : EventId} :
    s.fresh pid id = true ↔ id.worker = pid ∧ ∀ row ∈ s.events, row.id ≠ id := by
  simp [Store.fresh]

@[simp] theorem patch_id (eventId : EventId) (status : EventStatus) (errorMessage : Option String) (row : SqsEvent) :
    (patch eventId status errorMessage row).id = row.id := by
  unfold patch; split <;> rfl

@[simp] theorem patch_key (eventId : EventId) (status : EventStatus) (errorMessage : Option String) (row : SqsEvent) :
    (patch eventId status errorMessage row).key = row.key := by
  unfold patch; split <;> rfl

theorem patch_status (eventId : EventId) (status : EventStatus) (errorMessage : Option String) (row : SqsEvent) :
    (patch eventId status errorMessage row).status = if row.id = eventId then status else row.status := by
  unfold patch; split <;> rfl

theorem exists_iff {s : Store} {key : EventKey} :
    s.existsForMessage key = true ↔ ∃ row ∈ s.events, row.key = key := by
  simp [Store.existsForMessage]

end Connect.Sqs
