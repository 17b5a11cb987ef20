/-
  Connect.Sqs.Poller — the SQS cron (services/sqs_poller.py): `poll_sqs_queues`,
  `poll_single_queue` and `process_s3_event`.

  `pollers` is any number of workers that run the cron at any times over one store.
  `room` is how deep JSON may nest before the interpreter raises RecursionError.
-/

import Connect.Await.Exec
import Connect.Sqs.Store

namespace Connect.Sqs

open Await

abbrev SqsProg := Prog sqsSig Exc

abbrev await (o : SqsOp) : SqsProg o.Ret := @Prog.await sqsSig Exc o

/-! ## process_s3_event -/

/-- The probe and the INSERT; `none` when the event was recorded before. -/
def ensurePending (event : S3Event) (queue : SqsQueue) (messageId : String) : SqsProg (Option EventId) := do
  let found : Bool ← await (.existsForMessage ⟨messageId, queue.id, event.key⟩)
  if found then return none
  else do
    let id : EventId ← await (.createEvent queue.id messageId event)
    return some id

/-- `update_status` with its commit; its result is not read. -/
def updateStatus (eventId : EventId) (status : EventStatus) (errorMessage : Option String) : SqsProg Unit := do
  let _ ← await (.updateStatus eventId status errorMessage)
  return ()

/-- `if user_id: ... load_ll_token`. -/
def loadLlToken : Option String → SqsProg (Option String)
  | none => return none
  | some userId => await (.loadLlToken userId)

/-- `if not token`: the token of the secrets file. -/
def orLegacyToken (userId token : Option String) : SqsProg (Option String) :=
  if (truthy token).isSome then return token
  else
    match userId with
    | none => await .getLucidlinkToken
    | some userId => await (.getUserToken userId)

def getUserSetting : Option String → String → SqsProg (Option String)
  | none, _ => return none
  | some userId, key => await (.getUserSetting userId key)

structure Ready where
  token : String
  apiHost : String
  deriving DecidableEq, Repr

/-- From the lookups to the 'processing' write; `none` when it returned with a 'failed' row. -/
def prepare (eventId : EventId) (queue : SqsQueue) : SqsProg (Option Ready) := do
  let dsCred : Bool ← await (.getForDatastoreUser queue.datastoreId queue.userId)
  if !dsCred then do
    updateStatus eventId .failed (some "DataStore credentials not found")
    return none
  else do
    let token ← loadLlToken queue.userId
    let token ← orLegacyToken queue.userId token
    match truthy token with
    | none => do
      updateStatus eventId .failed (some "LucidLink API token not configured - please reconnect in Settings")
      return none
    | some token => do
      let apiHost ← getUserSetting queue.userId "api_host"
      updateStatus eventId .processing none
      return some ⟨token, apiHost.getD ""⟩

/-- `s.strip("/")`. -/
def stripSlashes (s : String) : String := String.ofList (dropSlashes (dropSlashes s.toList).reverse).reverse

/-- `f"{bucket}"`; what an INSERT took for the bucket is a string. -/
def bucketText : Json → String
  | .str s => s
  | _ => ""

def eventPath (queue : SqsQueue) (event : S3Event) : String :=
  let bucket := bucketText event.bucket
  if queue.importPrefix = "" then "/" ++ bucket ++ "/" ++ event.key
  else "/" ++ bucket ++ "/" ++ stripSlashes queue.importPrefix ++ "/" ++ event.key

/-- The status an answer of `import_file` leads to, and its message. -/
def importOutcome (code : Nat) (errorMsg : String) : EventStatus × Option String :=
  if code = 200 ∨ code = 201 then (.completed, none)
  else if (code = 400 ∨ code = 409) ∧ inLower "already exists" errorMsg = true then (.skipped, some "Already exists")
  else (.failed, some s!"HTTP {code}: {pyTake 150 errorMsg}")

def importTo (eventId : EventId) (event : S3Event) (llPath : String) : Bool × String → SqsProg Unit
  | (true, _) => do
    let answer : Nat × String ← await (.importFile event.key llPath)
    let outcome := importOutcome answer.1 answer.2
    updateStatus eventId outcome.1 outcome.2
  | (false, structureError) =>
    updateStatus eventId .failed (some s!"Failed to create folder: {pyTake 150 structureError}")

/-- The body of the `try` of `process_s3_event`. -/
def importEvent (eventId : EventId) (event : S3Event) (queue : SqsQueue) (r : Ready) : SqsProg Unit := do
  await (.newClient r.apiHost r.token queue.filespaceId queue.datastoreId)
  let structure_ : Bool × String ← await (.ensureStructure (eventPath queue event))
  importTo eventId event (eventPath queue event) structure_
  await .close

/-- Its `except Exception as e:`. -/
def importFailed (eventId : EventId) (e : Exc) : SqsProg Unit :=
  if e.isException then updateStatus eventId .failed (some (pyTake 200 e.text)) else .raise e

/-- `process_s3_event` once the pending row is there. -/
def finishEvent (eventId : EventId) (event : S3Event) (queue : SqsQueue) : SqsProg Unit := do
  match ← prepare eventId queue with
  | none => return ()
  | some r => (importEvent eventId event queue r).catching (importFailed eventId)

def processS3Event (event : S3Event) (queue : SqsQueue) (messageId : String) : SqsProg Unit := do
  match ← ensurePending event queue messageId with
  | none => return ()
  | some eventId => finishEvent eventId event queue

/-! ## poll_single_queue -/

/-- `except Exception as e:` around one event. -/
def eventFailed (event : S3Event) (queue : SqsQueue) (messageId : String) (n : Nat) (e : Exc) : SqsProg Nat :=
  if e.isException then do
    let _ ← await (.recordFailed queue.id messageId event (pyTake 200 e.text))
    return n
  else .raise e

/-- One create event; how many events are processed then. -/
def handleEvent (event : S3Event) (queue : SqsQueue) (messageId : String) (n : Nat) : SqsProg Nat :=
  (do processS3Event event queue messageId; return n + 1 : SqsProg Nat).catching (eventFailed event queue messageId n)

def handleEvents (queue : SqsQueue) (messageId : String) : List S3Event → Nat → SqsProg Nat
  | [], n => return n
  | event :: rest, n =>
    if isCreateEvent event.eventType then do
      let n ← handleEvent event queue messageId n
      handleEvents queue messageId rest n
    else handleEvents queue messageId rest n

/-- `delete_message`, with its `except SQSError: pass`. -/
def deleteMessage (queue : SqsQueue) (receiptHandle : String) : SqsProg Unit :=
  (do let _ ← await (.deleteMessage queue receiptHandle); return () : SqsProg Unit).catching fun
    | .sqsError _ => return ()
    | e => .raise e

def handleMessage (room : Nat) (queue : SqsQueue) (message : Message) (n : Nat) : SqsProg Nat :=
  match parseS3Events room (message.body.getD "") with
  | .error e => .raise e
  | .ok s3Events => do
    let n ← handleEvents queue (message.messageId.getD "") s3Events n
    deleteMessage queue (message.receiptHandle.getD "")
    return n

def handleMessages (room : Nat) (queue : SqsQueue) : List Message → Nat → SqsProg Nat
  | [], n => return n
  | message :: rest, n => do
    let n ← handleMessage room queue message n
    handleMessages room queue rest n

def pollSingleQueue (room : Nat) (queue : SqsQueue) : SqsProg Nat := do
  let messages : List Message ← await (.receiveMessages queue)
  handleMessages room queue messages 0

/-! ## poll_sqs_queues -/

/-- What the sweep has so far: the clients it made, by owner and region, and its totals. -/
structure Sweep where
  sqsClients : List (Option String × String)
  totalEvents : Nat
  errors : List String
  deriving DecidableEq, Repr

def queueRegion (queue : SqsQueue) (creds : SqsCreds) : String :=
  if queue.region ≠ "" then queue.region else if creds.region ≠ "" then creds.region else "us-east-1"

def setError (queue : SqsQueue) (errorMessage : String) : SqsProg Unit := do
  let _ ← await (.setError queue.id errorMessage)
  return ()

/-- The clients with the queue's; `none` when its owner has no credentials to make one. -/
def sqsClient (queue : SqsQueue) (clients : List (Option String × String)) :
    SqsProg (Option (List (Option String × String))) := do
  let sqsCreds : Option SqsCreds ← await (.getSqsCredentials queue.userId)
  match sqsCreds with
  | none => do
    setError queue "No SQS credentials configured for user"
    return none
  | some creds =>
    if creds.accessKey = "" ∨ creds.secretKey = "" then do
      setError queue "Invalid SQS credentials"
      return none
    else do
      let clientKey := (queue.userId, queueRegion queue creds)
      if clientKey ∈ clients then return some clients
      else do
        await (.newSqsService creds.accessKey creds.secretKey (queueRegion queue creds))
        return some (clients ++ [clientKey])

/-- `except Exception as e:` around one queue. -/
def queueFailed (queue : SqsQueue) (w : Sweep) (e : Exc) : SqsProg Sweep :=
  if e.isException then do
    let errorMsg := pyTake 200 e.text
    setError queue errorMsg
    return { w with errors := w.errors ++ [s!"{queue.name}: {errorMsg}"] }
  else .raise e

def markPolled (queue : SqsQueue) (w : Sweep) : SqsProg Sweep := do
  let r ← (await (.markPolled queue.id)).attempt
  match r with
  | .error e => queueFailed queue w e
  | .ok _ => return w

/-- One queue of the sweep. What the `try` has done when it raises stays done. -/
def pollQueue (room : Nat) (queue : SqsQueue) (w : Sweep) : SqsProg Sweep := do
  match ← (sqsClient queue w.sqsClients).attempt with
  | .error e => queueFailed queue w e
  | .ok none => return w
  | .ok (some clients) => do
    let w := { w with sqsClients := clients }
    match ← (pollSingleQueue room queue).attempt with
    | .error e => queueFailed queue w e
    | .ok n => markPolled queue { w with totalEvents := w.totalEvents + n }

def pollQueues (room : Nat) : List SqsQueue → Sweep → SqsProg Sweep
  | [], w => return w
  | queue :: rest, w => do
    let w ← pollQueue room queue w
    pollQueues room rest w

/-- The dictionaries `poll_sqs_queues` returns; no errors are None. -/
inductive PollResult where
  | skipped (reason : String)
  | ok (queuesPolled eventsProcessed : Nat) (errors : List String)
  deriving DecidableEq, Repr

def sweep (room : Nat) : SqsProg PollResult := do
  let queues : List SqsQueue ← await .listActive
  if queues.isEmpty then return .ok 0 0 []
  else do
    let w ← pollQueues room queues ⟨[], 0, []⟩
    return .ok queues.length w.totalEvents w.errors

def acquirePollLock (workerId : Nat) : SqsProg Bool := await (.acquirePollLock workerId)

def releasePollLock (workerId : Nat) : SqsProg Bool :=
  @Prog.catching sqsSig Exc Bool (await (.releasePollLock workerId))
    fun e => if e.isException then return false else .raise e

def pollSqsQueues (room workerId : Nat) : SqsProg PollResult := do
  let acquired : Bool ← acquirePollLock workerId
  if acquired then (sweep room).finally_ (do let _ ← releasePollLock workerId; return ())
  else return .skipped "another worker is polling"

/-! ## The workers -/

/-- Any number of workers, each run of the cron a process with its own worker id. Time
    passes as it likes. -/
def pollers (room : Nat) : System sqsSig Exc PollResult where
  State := Store
  Env := Nat
  Task := Unit
  init s := s.lock = none ∧ s.events = [] ∧ s.deliveries = []
  exec := Store.exec
  env s ms := some { s with now := s.now + ms }
  starts _ _ := true
  code pid _ := pollSqsQueues room pid

abbrev SqsHist := List (Event sqsSig Exc)

abbrev SqsCall := Call sqsSig Exc

abbrev SqsWorld (room : Nat) := World (pollers room)

theorem poller_did {room pid : Nat} {s s' : Store} {o : SqsOp} {r : Except Exc o.Ret}
    (h : (pollers room).exec pid s o r = some s') : Did pid s o r s' := exec_did h

/-- The operation of a step is one on the store. -/
theorem event_did {room : Nat} {c : Config (pollers room)} {ch : Choice (pollers room)} {e : Event sqsSig Exc}
    (he : event c ch = some e) : Did e.pid c.w.st e.op e.ans (step c ch).w.st := by
  obtain ⟨k, s, _, hx, hs⟩ := event_some he
  rw [hs]
  exact poller_did hx

/-- What the store answers process `pid`, next to services that accept everything; the
    active queues are `queues`, and `messages` are waiting in each. -/
def Store.answer (pid : Nat) (queues : List SqsQueue) (messages : List Message) (s : Store) :
    (o : SqsOp) → Except Exc o.Ret
  | .acquirePollLock _ => .ok s.holder.isNone
  | .releasePollLock workerId => .ok (decide (s.holder = some workerId))
  | .listActive => .ok queues
  | .getSqsCredentials _ => .ok (some ⟨"key", "secret", "us-east-1"⟩)
  | .setError _ _ | .markPolled _ | .getForDatastoreUser _ _ | .deleteMessage _ _ => .ok true
  | .receiveMessages _ => .ok messages
  | .existsForMessage key => .ok (s.existsForMessage key)
  | .createEvent _ _ _ | .recordFailed _ _ _ _ => .ok ⟨pid, s.events.length⟩
  | .updateStatus eventId _ _ => .ok (s.events.any (·.id == eventId))
  | .loadLlToken _ | .getUserToken _ | .getLucidlinkToken => .ok (some "token")
  | .getUserSetting _ _ => .ok none
  | .ensureStructure _ => .ok (true, "")
  | .importFile _ _ => .ok (201, "")
  | .newSqsService _ _ _ | .newClient _ _ _ _ | .close => .ok ()

def idleStore : Store := ⟨0, none, [], []⟩

/-- A queue without an owner, and a message in it that announces the object `k`. -/
def theQueue : SqsQueue := ⟨1, "https://sqs/q", "q", "us-east-1", "datastore", "filespace", "", none⟩

def putMessage (receiptHandle : String) : Message :=
  ⟨some "m", some receiptHandle,
    some ("\x7b\"Records\":[\x7b\"eventSource\":\"aws:s3\",\"eventName\":\"ObjectCreated:Put\"," ++
      "\"s3\":\x7b\"bucket\":\x7b\"name\":\"b\"\x7d,\"object\":\x7b\"key\":\"k\"\x7d\x7d\x7d]\x7d")⟩

def putKey : EventKey := ⟨"m", 1, "k"⟩

theorem importOutcome_terminal (code : Nat) (errorMsg : String) :
    (importOutcome code errorMsg).1.terminal = true := by
  unfold importOutcome
  split
  · rfl
  · split <;> rfl

/-- The keys of the create events among `events`. -/
def eventKeys (queue : SqsQueue) (messageId : String) (events : List S3Event) : List EventKey :=
  (events.filter fun event => isCreateEvent event.eventType).map fun event => ⟨messageId, queue.id, event.key⟩

/-- Those in a message. -/
def messageKeys (room : Nat) (queue : SqsQueue) (message : Message) : List EventKey :=
  (createEvents room (message.body.getD "")).map fun event => ⟨message.messageId.getD "", queue.id, event.key⟩

theorem messageKeys_ok {room : Nat} {queue : SqsQueue} {message : Message} {events : List S3Event}
    (h : parseS3Events room (message.body.getD "") = .ok events) :
    messageKeys room queue message = eventKeys queue (message.messageId.getD "") events := by
  simp only [messageKeys, createEvents, h, eventKeys]

theorem eventKeys_create {queue : SqsQueue} {messageId : String} {event : S3Event} {rest : List S3Event}
    (h : isCreateEvent event.eventType = true) :
    eventKeys queue messageId (event :: rest) =
      ⟨messageId, queue.id, event.key⟩ :: eventKeys queue messageId rest := by
  simp [eventKeys, h]

theorem eventKeys_other {queue : SqsQueue} {messageId : String} {event : S3Event} {rest : List S3Event}
    (h : ¬ isCreateEvent event.eventType = true) :
    eventKeys queue messageId (event :: rest) = eventKeys queue messageId rest := by
  simp [eventKeys, h]

/-! ## Operations of a sweep -/

/-- What touches neither the store nor a message and has no part in the import. -/
def QuietOp : SqsOp → Prop
  | .newClient _ _ _ _ | .importFile _ _ | .deleteMessage _ _ => False
  | o => o.outside = true

/-- Quiet, or an UPDATE of one event row. -/
def StatusOp (eventId : EventId) : SqsOp → Prop
  | .updateStatus id _ _ => id = eventId
  | o => QuietOp o

/-- The operations on one event once its pending row is there. -/
def FinishOp (eventId : EventId) : SqsOp → Prop
  | .newClient _ _ _ _ | .importFile _ _ => True
  | o => StatusOp eventId o

/-- All but the two calls on the poll lock. -/
def WorkOp : SqsOp → Prop
  | .acquirePollLock _ | .releasePollLock _ => False
  | _ => True

/-- Around the messages of a queue: quiet, or a call on the poll lock. -/
def OuterOp : SqsOp → Prop
  | .acquirePollLock _ | .releasePollLock _ => True
  | o => QuietOp o

/-- What neither asks for folders nor imports. -/
def Beside : SqsOp → Prop
  | .ensureStructure _ | .importFile _ _ => False
  | _ => True

/-- What `poll_single_queue` awaits: nothing of the poll lock, and no row of sqs_queues. -/
def PollOp : SqsOp → Prop
  | .acquirePollLock _ | .releasePollLock _ | .listActive | .setError _ _ | .markPolled _ => False
  | _ => True

/-- Of these, what is done before the import. -/
def LookupOp (o : SqsOp) : Prop := PollOp o ∧ Beside o

theorem quiet_status {eventId : EventId} (o : SqsOp) (h : QuietOp o) : StatusOp eventId o := by
  cases o <;> first | exact h | cases h

theorem quiet_work (o : SqsOp) (h : QuietOp o) : WorkOp o := by
  cases o <;> trivial

theorem status_finish {eventId : EventId} (o : SqsOp) (h : StatusOp eventId o) : FinishOp eventId o := by
  cases o <;> first | exact h | cases h

theorem finish_work {eventId : EventId} (o : SqsOp) (h : FinishOp eventId o) : WorkOp o := by
  cases o <;> trivial

theorem quiet_outer (o : SqsOp) (h : QuietOp o) : OuterOp o := by
  cases o <;> first | exact h | cases h

theorem quiet_outside {o : SqsOp} (h : QuietOp o) : o.outside = true := by
  cases o <;> first | rfl | cases h

theorem finish_outside {id : EventId} {o : SqsOp} (h : FinishOp id o) :
    o.outside = true ∨ ∃ st msg, o = .updateStatus id st msg := by
  cases o with
  | updateStatus i st msg => exact Or.inr ⟨st, msg, by rw [show i = id from h]⟩
  | _ => first | exact Or.inl rfl | cases h

section Uses

theorem uses_updateStatus {P : SqsOp → Prop} {eventId : EventId} {status : EventStatus} {errorMessage : Option String}
    (h : P (.updateStatus eventId status errorMessage)) : (updateStatus eventId status errorMessage).Uses P :=
  .bind (.await h) fun _ => trivial

theorem uses_loadLlToken (userId : Option String) : (loadLlToken userId).Uses QuietOp := by
  cases userId with
  | none => trivial
  | some u => exact .await rfl

theorem uses_orLegacyToken (userId token : Option String) : (orLegacyToken userId token).Uses QuietOp := by
  unfold orLegacyToken
  split
  · trivial
  · cases userId with
    | none => exact .await rfl
    | some u => exact .await rfl

theorem uses_getUserSetting (userId : Option String) (key : String) : (getUserSetting userId key).Uses QuietOp := by
  cases userId with
  | none => trivial
  | some u => exact .await rfl

theorem uses_setError (queue : SqsQueue) (errorMessage : String) : (setError queue errorMessage).Uses QuietOp :=
  .bind (.await rfl) fun _ => trivial

theorem uses_sqsClient (queue : SqsQueue) (clients : List (Option String × String)) :
    (sqsClient queue clients).Uses QuietOp := by
  refine .bind (.await rfl) fun creds => ?_
  cases creds with
  | none => exact .bind (uses_setError _ _) fun _ => trivial
  | some creds =>
    dsimp only
    split
    · exact .bind (uses_setError _ _) fun _ => trivial
    · split
      · trivial
      · exact .bind (.await rfl) fun _ => trivial

theorem uses_queueFailed (queue : SqsQueue) (w : Sweep) (e : Exc) : (queueFailed queue w e).Uses QuietOp := by
  unfold queueFailed
  split
  · exact .bind (uses_setError _ _) fun _ => trivial
  · trivial

theorem uses_markPolled (queue : SqsQueue) (w : Sweep) : (markPolled queue w).Uses QuietOp := by
  refine .bind (Prog.Uses.attempt (.await rfl)) fun r => ?_
  cases r with
  | ok _ => trivial
  | error e => exact uses_queueFailed queue w e

theorem uses_prepare (eventId : EventId) (queue : SqsQueue) : (prepare eventId queue).Uses (StatusOp eventId) := by
  refine .bind (.await rfl) fun dsCred => ?_
  cases dsCred with
  | false => exact .bind (uses_updateStatus rfl) fun _ => trivial
  | true =>
    refine .bind ((uses_loadLlToken _).mono quiet_status) fun token => ?_
    refine .bind ((uses_orLegacyToken _ _).mono quiet_status) fun token => ?_
    cases truthy token with
    | none => exact .bind (uses_updateStatus rfl) fun _ => trivial
    | some token =>
      refine .bind ((uses_getUserSetting _ _).mono quiet_status) fun apiHost => ?_
      exact .bind (uses_updateStatus rfl) fun _ => trivial

theorem uses_ensurePending_lookup (event : S3Event) (queue : SqsQueue) (messageId : String) :
    (ensurePending event queue messageId).Uses LookupOp := by
  refine .bind (.await ⟨trivial, trivial⟩) fun found => ?_
  cases found with
  | true => trivial
  | false => exact .bind (.await ⟨trivial, trivial⟩) fun _ => trivial

theorem uses_prepare_lookup (eventId : EventId) (queue : SqsQueue) : (prepare eventId queue).Uses LookupOp := by
  refine .bind (.await ⟨trivial, trivial⟩) fun dsCred => ?_
  cases dsCred with
  | false => exact .bind (uses_updateStatus ⟨trivial, trivial⟩) fun _ => trivial
  | true =>
    refine .bind ?_ fun token => .bind ?_ fun token => ?_
    · cases queue.userId with
      | none => trivial
      | some u => exact .await ⟨trivial, trivial⟩
    · unfold orLegacyToken
      split
      · trivial
      · cases queue.userId with
        | none => exact .await ⟨trivial, trivial⟩
        | some u => exact .await ⟨trivial, trivial⟩
    · cases truthy token with
      | none => exact .bind (uses_updateStatus ⟨trivial, trivial⟩) fun _ => trivial
      | some token =>
        refine .bind ?_ fun apiHost => .bind (uses_updateStatus ⟨trivial, trivial⟩) fun _ => trivial
        cases queue.userId with
        | none => trivial
        | some u => exact .await ⟨trivial, trivial⟩

theorem uses_importFailed_lookup (eventId : EventId) (e : Exc) : (importFailed eventId e).Uses LookupOp := by
  unfold importFailed
  split
  · exact uses_updateStatus ⟨trivial, trivial⟩
  · trivial

theorem uses_ensurePending_beside (event : S3Event) (queue : SqsQueue) (messageId : String) :
    (ensurePending event queue messageId).Uses Beside :=
  (uses_ensurePending_lookup event queue messageId).mono fun _ h => h.2

theorem uses_prepare_beside (eventId : EventId) (queue : SqsQueue) : (prepare eventId queue).Uses Beside :=
  (uses_prepare_lookup eventId queue).mono fun _ h => h.2

theorem uses_importFailed_beside (eventId : EventId) (e : Exc) : (importFailed eventId e).Uses Beside :=
  (uses_importFailed_lookup eventId e).mono fun _ h => h.2

theorem uses_importTo (eventId : EventId) (event : S3Event) (llPath : String) (r : Bool × String) :
    (importTo eventId event llPath r).Uses (FinishOp eventId) := by
  obtain ⟨_ | _, err⟩ := r
  · exact uses_updateStatus rfl
  · exact .bind (.await trivial) fun _ => uses_updateStatus rfl

theorem uses_importEvent (eventId : EventId) (event : S3Event) (queue : SqsQueue) (r : Ready) :
    (importEvent eventId event queue r).Uses (FinishOp eventId) :=
  .bind (.await trivial) fun _ => .bind (.await rfl) fun _ => .bind (uses_importTo _ _ _ _) fun _ => .await rfl

theorem uses_importFailed (eventId : EventId) (e : Exc) : (importFailed eventId e).Uses (StatusOp eventId) := by
  unfold importFailed
  split
  · exact uses_updateStatus rfl
  · trivial

theorem uses_finishEvent (eventId : EventId) (event : S3Event) (queue : SqsQueue) :
    (finishEvent eventId event queue).Uses (FinishOp eventId) := by
  refine .bind ((uses_prepare _ _).mono status_finish) fun r => ?_
  cases r with
  | none => trivial
  | some r => exact .catching (uses_importEvent _ _ _ _) fun e => (uses_importFailed _ e).mono status_finish

theorem uses_processS3Event (event : S3Event) (queue : SqsQueue) (messageId : String) :
    (processS3Event event queue messageId).Uses WorkOp := by
  refine .bind (.bind (.await trivial) fun found => ?_) fun id => ?_
  · cases found with
    | true => trivial
    | false => exact .bind (.await trivial) fun _ => trivial
  · cases id with
    | none => trivial
    | some id => exact (uses_finishEvent _ _ _).mono finish_work

theorem uses_eventFailed {P : SqsOp → Prop} {event : S3Event} {queue : SqsQueue} {messageId : String}
    {n : Nat} {e : Exc} (h : ∀ errorMessage, P (.recordFailed queue.id messageId event errorMessage)) :
    (eventFailed event queue messageId n e).Uses P := by
  unfold eventFailed
  split
  · exact .bind (.await (h _)) fun _ => trivial
  · trivial

theorem uses_deleteMessage {P : SqsOp → Prop} {queue : SqsQueue} {receiptHandle : String}
    (h : P (.deleteMessage queue receiptHandle)) : (deleteMessage queue receiptHandle).Uses P :=
  .catching (.bind (.await h) fun _ => trivial) fun e => by cases e <;> trivial

theorem uses_handleEvents (queue : SqsQueue) (messageId : String) (events : List S3Event) (n : Nat) :
    (handleEvents queue messageId events n).Uses WorkOp := by
  induction events generalizing n with
  | nil => trivial
  | cons event rest ih =>
    unfold handleEvents
    split
    · refine .bind (.catching (.bind (uses_processS3Event _ _ _) fun _ => trivial) fun e => ?_) fun n => ih n
      exact uses_eventFailed fun _ => trivial
    · exact ih n

theorem uses_handleMessages (room : Nat) (queue : SqsQueue) (messages : List Message) (n : Nat) :
    (handleMessages room queue messages n).Uses WorkOp := by
  induction messages generalizing n with
  | nil => trivial
  | cons message rest ih =>
    refine .bind ?_ fun n => ih n
    unfold handleMessage
    split
    · trivial
    · exact .bind (uses_handleEvents _ _ _ _) fun n => .bind (uses_deleteMessage trivial) fun _ => trivial

/-- `poll_single_queue` leaves the poll lock and sqs_queues alone. -/
theorem uses_pollSingleQueue (room : Nat) (queue : SqsQueue) : (pollSingleQueue room queue).Uses PollOp := by
  have himport : ∀ id event r, (importEvent id event queue r).Uses PollOp := by
    intro id event r
    refine .bind (.await trivial) fun _ => .bind (.await trivial) fun made => .bind ?_ fun _ => .await trivial
    obtain ⟨_ | _, err⟩ := made
    · exact uses_updateStatus trivial
    · exact .bind (.await trivial) fun _ => uses_updateStatus trivial
  have hprocess : ∀ event messageId, (processS3Event event queue messageId).Uses PollOp := by
    intro event messageId
    refine .bind ((uses_ensurePending_lookup event queue messageId).mono fun _ h => h.1) fun id => ?_
    cases id with
    | none => trivial
    | some id =>
      refine .bind ((uses_prepare_lookup id queue).mono fun _ h => h.1) fun r => ?_
      cases r with
      | none => trivial
      | some r => exact .catching (himport id event r) fun e => (uses_importFailed_lookup id e).mono fun _ h => h.1
  have hevents : ∀ messageId events n, (handleEvents queue messageId events n).Uses PollOp := by
    intro messageId events
    induction events with
    | nil => exact fun _ => trivial
    | cons event rest ih =>
      intro n
      unfold handleEvents
      split
      · refine .bind (.catching (.bind (hprocess event messageId) fun _ => trivial) fun e => ?_) fun n => ih n
        exact uses_eventFailed fun _ => trivial
      · exact ih n
  refine .bind (.await trivial) fun messages => ?_
  have hmessages : ∀ (messages : List Message) n, (handleMessages room queue messages n).Uses PollOp := by
    intro messages
    induction messages with
    | nil => exact fun _ => trivial
    | cons message rest ih =>
      intro n
      refine .bind ?_ fun n => ih n
      unfold handleMessage
      split
      · trivial
      · exact .bind (hevents _ _ _) fun n => .bind (uses_deleteMessage trivial) fun _ => trivial
  exact hmessages messages 0

theorem uses_pollQueue (room : Nat) (queue : SqsQueue) (w : Sweep) : (pollQueue room queue w).Uses WorkOp := by
  refine .bind (((uses_sqsClient _ _).mono quiet_work).attempt) fun r => ?_
  rcases r with e | _ | clients
  · exact (uses_queueFailed _ _ _).mono quiet_work
  · trivial
  · refine .bind (Prog.Uses.attempt (.bind (.await trivial) fun ms => uses_handleMessages _ _ _ _)) fun r => ?_
    cases r with
    | error e => exact (uses_queueFailed _ _ _).mono quiet_work
    | ok n => exact (uses_markPolled _ _).mono quiet_work

theorem uses_sweep (room : Nat) : (sweep room).Uses WorkOp := by
  have hqueues : ∀ queues w, (pollQueues room queues w).Uses WorkOp := by
    intro queues
    induction queues with
    | nil => intro w; trivial
    | cons queue rest ih => intro w; exact .bind (uses_pollQueue _ _ _) fun w => ih w
  refine .bind (.await trivial) fun queues => ?_
  split
  · trivial
  · exact .bind (hqueues _ _) fun _ => trivial

end Uses

/-! ## Parts without a handler -/

section Bare

theorem bare_updateStatus (eventId : EventId) (status : EventStatus) (errorMessage : Option String) :
    Bare (updateStatus eventId status errorMessage) := .bind (.await _) fun _ => trivial

theorem bare_loadLlToken (userId : Option String) : Bare (loadLlToken userId) := by
  cases userId with
  | none => trivial
  | some u => exact .await _

theorem bare_orLegacyToken (userId token : Option String) : Bare (orLegacyToken userId token) := by
  unfold orLegacyToken
  split
  · trivial
  · cases userId with
    | none => exact .await _
    | some u => exact .await _

theorem bare_getUserSetting (userId : Option String) (key : String) : Bare (getUserSetting userId key) := by
  cases userId with
  | none => trivial
  | some u => exact .await _

theorem bare_prepare (eventId : EventId) (queue : SqsQueue) : Bare (prepare eventId queue) := by
  refine .bind (.await _) fun dsCred => ?_
  cases dsCred with
  | false => exact .bind (bare_updateStatus _ _ _) fun _ => trivial
  | true =>
    refine .bind (bare_loadLlToken _) fun token => .bind (bare_orLegacyToken _ _) fun token => ?_
    cases truthy token with
    | none => exact .bind (bare_updateStatus _ _ _) fun _ => trivial
    | some token =>
      exact .bind (bare_getUserSetting _ _) fun apiHost => .bind (bare_updateStatus _ _ _) fun _ => trivial

theorem bare_importEvent (eventId : EventId) (event : S3Event) (queue : SqsQueue) (r : Ready) :
    Bare (importEvent eventId event queue r) := by
  refine .bind (.await _) fun _ => .bind (.await _) fun structure_ => .bind ?_ fun _ => .await _
  obtain ⟨_ | _, err⟩ := structure_
  · exact bare_updateStatus _ _ _
  · exact .bind (.await _) fun _ => bare_updateStatus _ _ _

end Bare

end Connect.Sqs
