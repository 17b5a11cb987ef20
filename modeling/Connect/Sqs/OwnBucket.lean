/-
  Connect.Sqs.OwnBucket — which bucket an event may be imported from.

  `process_s3_event` looks the DataStore row of the queue up to see that there is one, and
  reads nothing of it: the object is imported by its key, out of the bucket of the
  datastore, to a path with the bucket of the event. `OwnBucket` is what a look at
  `bucket_name` would give: an import only where the two are the same, and a failed or
  skipped row with no folder made where they are not.

  `own_bucket_iff`: next to a database and a secrets file that answer, and whatever
  LucidLink does, it holds of a run exactly when the buckets are the same or the event is
  turned away before the folders for another reason.
-/

import Connect.Sqs.Accounting

namespace Connect.Sqs

open Await

/-! ## The lookups -/

/-- A row of datastore_credentials, as far as the lookup goes. -/
structure DatastoreRow where
  datastoreId : String
  userId : Option String
  bucketName : String
  deriving DecidableEq, Repr

/-- `get_for_datastore_user` with its `scalar_one_or_none`; the UNIQUE constraint lets a
    datastore without an owner have several rows. -/
def getForDatastoreUser (table : List DatastoreRow) (datastoreId : String) (userId : Option String) :
    Except Exc (Option DatastoreRow) :=
  match table.filter fun row => row.datastoreId == datastoreId && row.userId == userId with
  | [] => .ok none
  | [row] => .ok (some row)
  | _ :: _ :: _ => .error (.exception "Multiple rows were found when one or none was required")

/-- What the lookups find. -/
structure Lookups where
  table : List DatastoreRow
  llToken : String → Option String
  userToken : String → Option String
  lucidlinkToken : Option String

namespace Lookups

def row (l : Lookups) (queue : SqsQueue) : Except Exc (Option DatastoreRow) :=
  getForDatastoreUser l.table queue.datastoreId queue.userId

def legacyToken (l : Lookups) : Option String → Option String
  | none => l.lucidlinkToken
  | some userId => l.userToken userId

def token (l : Lookups) (userId : Option String) : Option String :=
  truthy (orElse (userId.bind l.llToken) (l.legacyToken userId))

/-- Whether an event of the queue goes on to LucidLink. -/
def prepared (l : Lookups) (queue : SqsQueue) : Except Exc Bool :=
  (l.row queue).map fun row => row.isSome && (l.token queue.userId).isSome

/-- The tables and the secrets file answer what is in them, and an INSERT is refused only
    for its values. LucidLink answers as it pleases. -/
def Answers (l : Lookups) : (o : SqsOp) → Except Exc o.Ret → Prop
  | .getForDatastoreUser datastoreId userId, r =>
    r = (getForDatastoreUser l.table datastoreId userId).map Option.isSome
  | .loadLlToken userId, r => r = .ok (l.llToken userId)
  | .getUserToken userId, r => r = .ok (l.userToken userId)
  | .getLucidlinkToken, r => r = .ok l.lucidlinkToken
  | .createEvent queueId messageId event, r =>
    (newRow ⟨0, 0⟩ queueId messageId event .pending none).isSome = true → ∃ id, r = .ok id
  | .existsForMessage _, r => ∃ found, r = .ok found
  | .updateStatus _ _ _, r => ∃ found, r = .ok found
  | .getUserSetting _ _, r => ∃ value, r = .ok value
  | .newClient _ _ _ _, r => r = .ok ()
  | _, _ => True

/-- The event is on the bucket of the queue's datastore. -/
def Matches (l : Lookups) (queue : SqsQueue) (event : S3Event) : Prop :=
  ∃ row, l.row queue = .ok (some row) ∧ event.bucket = .str row.bucketName

end Lookups

/-! ## The property -/

/-- Every row of the event has failed or was skipped. -/
def TurnedDown (key : EventKey) (s : Store) : Prop :=
  ∀ row ∈ s.events, row.key = key → row.status = .failed ∨ row.status = .skipped

structure OwnBucket (l : Lookups) (queue : SqsQueue) (event : S3Event) (messageId : String)
    (calls : List SqsCall) (s' : Store) : Prop where
  imports : (∃ call ∈ calls, ∃ s3Key llPath, call.op = .importFile s3Key llPath) → l.Matches queue event
  otherwise_ : ¬l.Matches queue event →
    (∀ call ∈ calls, Beside call.op) ∧ TurnedDown ⟨messageId, queue.id, event.key⟩ s'

/-- It does not come to the folders: the event was recorded before, and not imported; its
    row cannot be inserted; or there are no credentials, or no token. -/
def TurnedAway (l : Lookups) (queue : SqsQueue) (event : S3Event) (messageId : String) (s : Store) : Prop :=
  if s.existsForMessage ⟨messageId, queue.id, event.key⟩ = true then TurnedDown ⟨messageId, queue.id, event.key⟩ s
  else newRow ⟨0, 0⟩ queue.id messageId event .pending none = none ∨ l.prepared queue = .ok false

section Runs

variable {room pid : Nat} {l : Lookups} {queue : SqsQueue} {event : S3Event} {messageId k : String}
    {queueId : Nat} {id : EventId}
  {older : List SqsEvent} {s s' : Store} {calls : List SqsCall}

theorem newRow_id (id id' : EventId) (st : EventStatus) (msg : Option String) :
    (newRow id queueId messageId event st msg).isSome =
      (newRow id' queueId messageId event .pending none).isSome := by
  simp only [newRow, Option.bind_eq_bind]
  cases toText (.str messageId) <;> cases toText event.eventType <;> cases toText event.bucket <;>
    cases toText (.str event.key) <;> cases toBigint event.size <;> rfl

/-- Only the rows of the message count. -/
theorem turnedDown_iff : TurnedDown ⟨messageId, queueId, k⟩ s ↔
    ∀ row ∈ messageRows messageId queueId s, row.key = ⟨messageId, queueId, k⟩ →
    row.status = .failed ∨ row.status = .skipped := by
  refine ⟨fun h row hrow => h row (List.mem_filter.mp hrow).1, fun h row hrow hkey => h row ?_ hkey⟩
  have hm : row.messageId = messageId := congrArg EventKey.messageId hkey
  have hq : row.queueId = queueId := congrArg EventKey.queueId hkey
  exact List.mem_filter.mpr ⟨hrow, by simp [hm, hq]⟩

theorem turnedDown_apart (h : Apart messageId queueId s s') :
    TurnedDown ⟨messageId, queueId, k⟩ s' ↔ TurnedDown ⟨messageId, queueId, k⟩ s := by
  rw [turnedDown_iff, turnedDown_iff, show messageRows messageId queueId s' = _ from h]

theorem exists_apart (h : Apart messageId queueId s s') :
    s'.existsForMessage ⟨messageId, queueId, k⟩ = s.existsForMessage ⟨messageId, queueId, k⟩ := by
  have hrows : ∀ s : Store, s.existsForMessage ⟨messageId, queueId, k⟩ =
      (messageRows messageId queueId s).any (·.key == ⟨messageId, queueId, k⟩) := by
    intro s
    rw [Bool.eq_iff_iff, exists_iff, List.any_eq_true]
    constructor
    · intro h
      obtain ⟨row, hrow, hkey⟩ := h
      have hm : row.messageId = messageId := congrArg EventKey.messageId hkey
      have hq : row.queueId = queueId := congrArg EventKey.queueId hkey
      exact ⟨row, List.mem_filter.mpr ⟨hrow, by simp [hm, hq]⟩, by simp [hkey]⟩
    · intro h
      obtain ⟨row, hrow, hkey⟩ := h
      exact ⟨row, (List.mem_filter.mp hrow).1, by simpa using hkey⟩
  rw [hrows, hrows, show messageRows messageId queueId s' = _ from h]

/-- The row of the event in hand decides. -/
theorem entered_turnedDown {s₀ : Store} {P : EventStatus → Prop}
    (hnew : s₀.existsForMessage ⟨messageId, queueId, k⟩ = false)
    (h : Entered messageId queueId k id (messageRows messageId queueId s₀) P s) :
    ((∀ st, P st → st = .failed) → TurnedDown ⟨messageId, queueId, k⟩ s) ∧
      ((∀ st, P st → st = .pending) → ¬TurnedDown ⟨messageId, queueId, k⟩ s) := by
  obtain ⟨_, row, hrows, _, hkey, hst⟩ := h
  rw [turnedDown_iff, hrows]
  constructor
  · intro hfailed row' hrow' hkey'
    rcases List.mem_cons.mp hrow' with rfl | hold
    · exact Or.inl (hfailed _ hst)
    · have := exists_iff.mpr ⟨row', (List.mem_filter.mp hold).1, hkey'⟩
      rw [hnew] at this
      cases this
  · intro hpending hdown
    rcases hdown row List.mem_cons_self hkey with he | he
    · rw [hpending _ hst] at he
      cases he
    · rw [hpending _ hst] at he
      cases he

/-! ## Runs -/

theorem yields_updateStatus {st : EventStatus} {msg : Option String} :
    Yields l.Answers (fun _ => True) (updateStatus id st msg) :=
  .bind (.returns fun _ h => h) fun _ _ => trivial

theorem yields_loadLlToken (userId : Option String) :
    Yields l.Answers (· = userId.bind l.llToken) (loadLlToken userId) := by
  cases userId with
  | none => rfl
  | some u => exact .await fun _ hr => ⟨_, hr, rfl⟩

theorem yields_orLegacyToken (userId token : Option String) :
    Yields l.Answers (· = orElse token (l.legacyToken userId)) (orLegacyToken userId token) := by
  unfold orLegacyToken orElse
  split
  · rfl
  · cases userId with
    | none => exact .await fun _ hr => ⟨_, hr, rfl⟩
    | some u => exact .await fun _ hr => ⟨_, hr, rfl⟩

theorem yields_getUserSetting (userId : Option String) (key : String) :
    Yields l.Answers (fun _ => True) (getUserSetting userId key) := by
  cases userId with
  | none => trivial
  | some u => exact .returns fun _ h => h

theorem yields_prepare {row : Option DatastoreRow} (hrow : l.row queue = .ok row) :
    Yields l.Answers (·.isSome = (row.isSome && (l.token queue.userId).isSome)) (prepare id queue) := by
  refine .bind (.await (Q := (· = row.isSome)) fun r hr => ⟨row.isSome, ?_, rfl⟩) fun dsCred hds => ?_
  · rw [hr, show getForDatastoreUser _ _ _ = _ from hrow]
    rfl
  cases row with
  | none =>
    cases hds
    exact .bind yields_updateStatus fun _ _ => rfl
  | some row =>
    cases hds
    refine .bind (yields_loadLlToken _) fun token htoken => .bind (yields_orLegacyToken _ _) fun token' htoken' => ?_
    have hend : truthy token' = l.token queue.userId := by rw [htoken', htoken]; rfl
    cases ht : truthy token' with
    | none =>
      rw [← hend, ht]
      exact .bind yields_updateStatus fun _ _ => rfl
    | some t =>
      rw [← hend, ht]
      exact .bind (yields_getUserSetting _ _) fun _ _ => .bind yields_updateStatus fun _ _ => rfl

theorem prepare_ends {x : Except Exc (Option Ready)}
    (h : Alone room pid messageId queueId (prepare id queue) s calls x s')
    (hok : ∀ call ∈ calls, l.Answers call.op call.ans) : x.map Option.isSome = l.prepared queue := by
  unfold Lookups.prepared
  cases hrow : l.row queue with
  | ok row =>
    obtain ⟨ready, rfl, hready⟩ := (yields_prepare hrow).ends h hok
    exact congrArg Except.ok hready
  | error e =>
    obtain ⟨_, r, _, rest, _, _, rfl, hk⟩ := h
    have hr : r = (l.row queue).map Option.isSome := hok _ List.mem_cons_self
    rw [hr, hrow] at hk
    rw [hk.2.1]
    rfl

/-- With an error it stays pending. -/
theorem prepare_error {e : Exc} (h : Alone room pid messageId queueId (prepare id queue) s calls (.error e) s')
    (hok : ∀ call ∈ calls, l.Answers call.op call.ans) {P : EventStatus → Prop}
    (he : Entered messageId queueId k id older P s) :
    Entered messageId queueId k id older P s' := by
  have hprepared := prepare_ends h hok
  obtain ⟨s₁, r, s₂, rest, ha, hx, rfl, hk⟩ := h
  have hr : r = (l.row queue).map Option.isSome := hok _ List.mem_cons_self
  cases hrow : l.row queue with
  | ok row =>
    rw [Lookups.prepared, hrow] at hprepared
    cases hprepared
  | error e' =>
    rw [hr, hrow] at hk hx
    rw [did_raised (poller_did hx)] at hk
    exact (he.apart ha).apart hk.2.2

/-- Once it is prepared, the folders are asked for. -/
theorem importEvent_touches {r : Ready} {x : Except Exc Unit}
    (h : Alone room pid messageId queueId (importEvent id event queue r) s calls x s')
    (hok : ∀ call ∈ calls, l.Answers call.op call.ans) :
    ∃ call ∈ calls, call.op = .ensureStructure (eventPath queue event) := by
  obtain ⟨_, r, _, rest, _, _, rfl, hk⟩ := h
  obtain rfl : r = .ok () := hok _ List.mem_cons_self
  obtain ⟨_, r, _, rest, _, _, rfl, _⟩ := hk
  exact ⟨_, List.mem_cons_of_mem _ List.mem_cons_self, rfl⟩

theorem importing_touches {r : Ready} {x : Except Exc Unit}
    (h : Alone room pid messageId queueId ((importEvent id event queue r).catching (importFailed id)) s calls x s')
    (hok : ∀ call ∈ calls, l.Answers call.op call.ans) : ∃ call ∈ calls, ¬Beside call.op := by
  have hcalls : ∃ call ∈ calls, call.op = .ensureStructure (eventPath queue event) := by
    rcases exec_catching (Apart.refl _ _) h with ⟨_, _, hi⟩ | ⟨_, _, body, _, rfl, hi, _⟩
    · exact importEvent_touches hi hok
    · obtain ⟨call, hc, hop⟩ := importEvent_touches hi fun call hc => hok call (List.mem_append_left _ hc)
      exact ⟨call, List.mem_append_left _ hc, hop⟩
  obtain ⟨call, hc, hop⟩ := hcalls
  exact ⟨call, hc, by rw [hop]; exact fun hb => hb⟩

theorem finishEvent_own {x : Except Exc Unit} {s₀ : Store}
    (hnew : s₀.existsForMessage ⟨messageId, queue.id, event.key⟩ = false)
    (h : Alone room pid messageId queue.id (finishEvent id event queue) s calls x s')
    (hok : ∀ call ∈ calls, l.Answers call.op call.ans)
    (he : Entered messageId queue.id event.key id (messageRows messageId queue.id s₀) (· = .pending) s) :
    OwnBucket l queue event messageId calls s' ↔ l.Matches queue event ∨ l.prepared queue = .ok false := by
  rcases exec_bind (Apart.refl _ _) h with ⟨e, rfl, hp⟩ | ⟨ready, s₁, first, rest, rfl, hp, h⟩
  · have hprepared := prepare_ends hp hok
    have hno : ¬l.Matches queue event := by
      intro h
      obtain ⟨row, hrow, _⟩ := h
      rw [Lookups.prepared, hrow] at hprepared
      cases hprepared
    have hpending := (entered_turnedDown hnew (prepare_error hp hok he)).2 fun _ h => h
    rw [← hprepared]
    refine ⟨fun h => absurd (h.otherwise_ hno).2 hpending, fun h => ?_⟩
    rcases h with hm | hf
    · exact absurd hm hno
    · cases hf
  have hfirst := prepare_ends hp fun call hc => hok call (List.mem_append_left _ hc)
  cases ready with
  | none =>
    obtain ⟨rfl, _, ha⟩ := h
    rw [List.append_nil]
    have hbeside := exec_uses (uses_prepare_beside id queue) hp
    have hdown := (entered_turnedDown hnew ((prepare_none hp he).apart ha)).1 fun _ h => h
    refine ⟨fun _ => Or.inr hfirst.symm, fun _ => ⟨?_, fun _ => ⟨hbeside, hdown⟩⟩⟩
    intro h
    obtain ⟨call, hc, _, _, hop⟩ := h
    have := hbeside call hc
    rw [hop] at this
    exact this.elim
  | some r =>
    obtain ⟨call, hc, hop⟩ := importing_touches h fun call hc => hok call (List.mem_append_right first hc)
    rw [← hfirst]
    constructor
    · intro h
      refine Or.inl (Classical.byContradiction fun hno => ?_)
      exact hop ((h.otherwise_ hno).1 call (List.mem_append_right first hc))
    · intro h
      rcases h with hm | hf
      · exact ⟨fun _ => hm, fun hno => absurd hm hno⟩
      · cases hf

theorem own_nil : OwnBucket l queue event messageId [] s' ↔
    l.Matches queue event ∨ TurnedDown ⟨messageId, queue.id, event.key⟩ s' := by
  constructor
  · exact fun h => (Classical.em (l.Matches queue event)).imp id fun hno => (h.otherwise_ hno).2
  · exact fun h => ⟨fun ⟨_, hc, _⟩ => (nomatch hc), fun hno => ⟨fun _ hc => (nomatch hc), h.resolve_left hno⟩⟩

theorem own_cons {o : SqsOp} {r : Except Exc o.Ret} (hb : Beside o) :
    OwnBucket l queue event messageId (⟨o, r⟩ :: calls) s' ↔ OwnBucket l queue event messageId calls s' := by
  constructor
  · intro h
    exact ⟨fun ⟨c, hc, hop⟩ => h.imports ⟨c, List.mem_cons_of_mem _ hc, hop⟩,
      fun hno => ⟨fun c hc => (h.otherwise_ hno).1 c (List.mem_cons_of_mem _ hc), (h.otherwise_ hno).2⟩⟩
  · refine fun h => ⟨?_, fun hno => ⟨fun c hc => ?_, (h.otherwise_ hno).2⟩⟩
    · intro h
      obtain ⟨c, hc, s3Key, llPath, hop⟩ := h
      rcases List.mem_cons.mp hc with rfl | hc
      · cases hop
        exact hb.elim
      · exact h.imports ⟨c, hc, s3Key, llPath, hop⟩
    · rcases List.mem_cons.mp hc with rfl | hc
      · exact hb
      · exact (h.otherwise_ hno).1 c hc

/-- A run keeps to the bucket of the queue's datastore exactly when that is the bucket of
    the event, or the event does not come to the folders anyway. -/
theorem own_bucket_iff {x : Except Exc Unit}
    (h : Alone room pid messageId queue.id (processS3Event event queue messageId) s calls x s')
    (hok : ∀ call ∈ calls, l.Answers call.op call.ans) :
    OwnBucket l queue event messageId calls s' ↔ l.Matches queue event ∨ TurnedAway l queue event messageId s := by
  obtain ⟨s₁, r, s₂, rest, ha, hx, rfl, h⟩ := h
  obtain ⟨found, rfl⟩ : ∃ found, r = .ok found := hok _ List.mem_cons_self
  obtain ⟨rfl, rfl⟩ := exec_probe pid hx
  rw [own_cons (by exact trivial), TurnedAway, ← exists_apart ha]
  by_cases hfound : s₂.existsForMessage ⟨messageId, queue.id, event.key⟩ = true
  · rw [hfound] at h
    obtain ⟨rfl, _, ha'⟩ := h
    rw [if_pos hfound, own_nil, turnedDown_apart (k := event.key) (Eq.trans ha' ha)]
  have hnew : s₂.existsForMessage ⟨messageId, queue.id, event.key⟩ = false := Bool.eq_false_iff.mpr hfound
  rw [if_neg hfound]
  rw [hnew] at h
  obtain ⟨s₃, r, s₄, rest, ha₁, hx, rfl, h⟩ := h
  have hcreate := hok _ (List.mem_cons_of_mem _ List.mem_cons_self)
  have hnew₃ := (exists_apart ha₁).trans hnew
  rw [own_cons (by exact trivial)]
  rcases r with e | eventId
  · -- the INSERT raised, so it was refused
    obtain ⟨rfl, _, ha'⟩ := h
    rw [did_raised (poller_did hx)] at ha'
    have hrefused : newRow ⟨0, 0⟩ queue.id messageId event .pending none = none := by
      cases hrow : newRow ⟨0, 0⟩ queue.id messageId event .pending none with
      | none => rfl
      | some row =>
        obtain ⟨_, he⟩ := hcreate (by rw [hrow]; rfl)
        cases he
    have hdown : TurnedDown ⟨messageId, queue.id, event.key⟩ s' := by
      intro row hrow hkey
      have := exists_iff.mpr ⟨row, hrow, hkey⟩
      rw [exists_apart ha', hnew₃] at this
      cases this
    rw [own_nil]
    exact ⟨fun _ => Or.inr (Or.inl hrefused), fun _ => Or.inr hdown⟩
  · cases poller_did hx with
    | answered hout => cases hout
    | created hrow hf =>
      have hsome : newRow ⟨0, 0⟩ queue.id messageId event .pending none ≠ none := by
        intro hnone
        have := @newRow_id event messageId queue.id eventId ⟨0, 0⟩ .pending none
        rw [hrow, hnone] at this
        cases this
      rw [or_iff_right hsome]
      exact finishEvent_own hnew₃ h (fun call hc => hok call
        (List.mem_cons_of_mem _ (List.mem_cons_of_mem _ hc))) (entered_insert hrow hf)

end Runs

/-- The queue's datastore is over this bucket, and there is a token. -/
def lookupsOver (bucketName : String) : Lookups :=
  ⟨[⟨"datastore", none, bucketName⟩], fun _ => none, fun _ => none, some "token"⟩

/-- An event of the bucket `b` goes through. -/
def importedCalls : List SqsCall :=
  [⟨SqsOp.existsForMessage putKey, .ok false⟩, ⟨SqsOp.createEvent 1 "m" putEvent, .ok ⟨0, 0⟩⟩,
    ⟨SqsOp.getForDatastoreUser "datastore" none, .ok true⟩, ⟨SqsOp.getLucidlinkToken, .ok (some "token")⟩,
    ⟨SqsOp.updateStatus ⟨0, 0⟩ .processing none, .ok true⟩,
    ⟨SqsOp.newClient "" "token" "filespace" "datastore", .ok ()⟩,
    ⟨SqsOp.ensureStructure "/b/k", .ok (true, "")⟩, ⟨SqsOp.importFile "k" "/b/k", .ok (201, "")⟩,
    ⟨SqsOp.updateStatus ⟨0, 0⟩ .completed none, .ok true⟩, ⟨SqsOp.close, .ok ()⟩]

def importedStore : Store :=
  ((idleStore.insert pendingRow).updateStatus ⟨0, 0⟩ .processing none).updateStatus ⟨0, 0⟩ .completed none

theorem alone_imported : Alone 9 0 "m" 1 (processS3Event putEvent theQueue "m") idleStore importedCalls
    (.ok ()) importedStore := by
  refine ⟨idleStore, .ok false, idleStore, _, rfl, rfl, rfl, ?_⟩
  refine ⟨idleStore, .ok ⟨0, 0⟩, _, _, rfl, exec_pending, rfl, ?_⟩
  refine ⟨_, .ok true, _, _, rfl, rfl, rfl, ?_⟩
  refine ⟨_, .ok (some "token"), _, _, rfl, rfl, rfl, ?_⟩
  refine ⟨_, .ok true, _, _, rfl, rfl, rfl, ?_⟩
  refine ⟨_, .ok (), _, _, rfl, rfl, rfl, ?_⟩
  refine ⟨_, .ok (true, ""), _, _, rfl, rfl, rfl, ?_⟩
  refine ⟨_, .ok (201, ""), _, _, rfl, rfl, rfl, ?_⟩
  refine ⟨_, .ok true, _, _, rfl, rfl, rfl, ?_⟩
  exact ⟨_, .ok (), _, _, rfl, rfl, rfl, rfl, rfl, rfl⟩

theorem imported_answers (bucketName : String) :
    ∀ call ∈ importedCalls, (lookupsOver bucketName).Answers call.op call.ans := by
  intro call hc
  simp only [importedCalls, List.mem_cons, List.not_mem_nil, or_false] at hc
  rcases hc with rfl | rfl | rfl | rfl | rfl | rfl | rfl | rfl | rfl | rfl
  all_goals first | exact ⟨_, rfl⟩ | exact rfl | exact trivial | exact fun _ => ⟨_, rfl⟩

theorem own_bucket_same : OwnBucket (lookupsOver "b") theQueue putEvent "m" importedCalls importedStore :=
  (own_bucket_iff alone_imported (imported_answers "b")).mpr (Or.inl ⟨_, rfl, rfl⟩)

/-- The datastore is over another bucket than the event is of. -/
theorem other_bucket_imported : Alone 9 0 "m" 1
    (processS3Event putEvent theQueue "m") idleStore importedCalls (.ok ()) importedStore ∧
    (∀ call ∈ importedCalls, (lookupsOver "other").Answers call.op call.ans) ∧
      ¬OwnBucket (lookupsOver "other") theQueue putEvent "m" importedCalls importedStore := by
  refine ⟨alone_imported, imported_answers "other", fun h => ?_⟩
  have hcall : (⟨SqsOp.importFile "k" "/b/k", .ok (201, "")⟩ : SqsCall) ∈ importedCalls := by simp [importedCalls]
  obtain ⟨row, hrow, hbucket⟩ := h.imports ⟨_, hcall, _, _, rfl⟩
  cases hrow
  injection hbucket with hname
  exact absurd hname (by decide)

end Connect.Sqs
