/-
  Connect.Sqs.Accounting — one row per event, unless something raises between the pending
  row's commit and the inner `try`.

  The failure recorder of `poll_single_queue` inserts a fresh 'failed' row, "because we
  never inserted the row above". `process_s3_event` has inserted one when it raises in a
  lookup behind its first commit, or in the 'failed' write of its own handler: then a
  pending or processing row stays beside the failed one (`counted_twice`).

  `accounted_iff`: for one delivery of a message whose events have pairwise distinct keys
  and no rows yet, in every execution of its part of the loop up to its deletion, every
  event has exactly one row and its status is final, exactly when no call raised in one
  of these two places. `unbroken` reads that off the calls: `Phase` is where
  `process_s3_event` stands.
-/

import Connect.Sqs.Poller

namespace Connect.Sqs

open Await

/-! ## Where a call raised -/

/-- Where `process_s3_event` is with its event. -/
inductive Phase where
  /-- No pending row of the event is committed. -/
  | before
  /-- The row is there, and nothing catches an exception yet. -/
  | pending
  | trying
  /-- In the `except` of the inner `try`. -/
  | handling
  deriving DecidableEq, Repr

/-- A probe begins the next event, a deletion ends the message. -/
def resets : SqsOp → Bool
  | .existsForMessage _ | .deleteMessage _ _ => true
  | _ => false

/-- The first call of the inner `try`. -/
def entersTry : SqsOp → Bool
  | .newClient _ _ _ _ => true
  | _ => false

def inserts : SqsOp → Bool
  | .createEvent _ _ _ => true
  | _ => false

def Phase.next (ph : Phase) (call : SqsCall) : Phase :=
  if resets call.op then .before
  else
    match ph with
    | .before => if inserts call.op && !call.raised then .pending else .before
    | .pending => if entersTry call.op then (if call.raised then .handling else .trying) else .pending
    | .trying => if call.raised then .handling else .trying
    | .handling => .handling

/-- The call raises where the row is there and no handler of `process_s3_event` takes it. -/
def Phase.breaks (ph : Phase) (call : SqsCall) : Bool :=
  call.raised && !resets call.op &&
    match ph with
    | .pending => !entersTry call.op
    | .handling => true
    | .before | .trying => false

def unbroken : Phase → List SqsCall → Bool
  | _, [] => true
  | ph, call :: rest => !ph.breaks call && unbroken (ph.next call) rest

def Phase.after (ph : Phase) (calls : List SqsCall) : Phase := calls.foldl Phase.next ph

theorem unbroken_append (ph : Phase) (a b : List SqsCall) :
    unbroken ph (a ++ b) = (unbroken ph a && unbroken (ph.after a) b) := by
  induction a generalizing ph with
  | nil => rfl
  | cons call a ih =>
    show (!ph.breaks call && unbroken (ph.next call) (a ++ b)) = (!ph.breaks call && unbroken (ph.next call) a && _)
    rw [ih, Bool.and_assoc]
    rfl

theorem after_append (ph : Phase) (a b : List SqsCall) : ph.after (a ++ b) = (ph.after a).after b := List.foldl_append

/-- What resets does not depend on what was before. -/
theorem unbroken_reset {calls : List SqsCall} (h : ∀ call ∈ calls.head?, resets call.op = true) (ph : Phase) :
    unbroken ph calls = unbroken .before calls := by
  cases calls with
  | nil => rfl
  | cons call rest =>
    have hr := h call rfl
    simp [unbroken, Phase.breaks, Phase.next, hr]

theorem finish_resets {id : EventId} {o : SqsOp} (h : FinishOp id o) : resets o = false := by
  cases o <;> first | rfl | cases h

theorem status_enters {id : EventId} {o : SqsOp} (h : StatusOp id o) : entersTry o = false := by
  cases o <;> first | rfl | cases h

theorem pending_calls {id : EventId} {calls : List SqsCall} (h : ∀ call ∈ calls, StatusOp id call.op) :
    unbroken .pending calls = calls.all (!·.raised) ∧ Phase.after .pending calls = .pending := by
  induction calls with
  | nil => exact ⟨rfl, rfl⟩
  | cons call rest ih =>
    obtain ⟨h1, h2⟩ := ih fun c hc => h c (List.mem_cons_of_mem _ hc)
    have ho := h call List.mem_cons_self
    have hr : resets call.op = false := finish_resets (status_finish _ ho)
    have he : entersTry call.op = false := status_enters ho
    have hn : Phase.next .pending call = .pending := by simp [Phase.next, hr, he]
    refine ⟨?_, ?_⟩
    · show (!Phase.breaks .pending call && unbroken (Phase.next .pending call) rest) = _
      rw [hn, h1, List.all_cons]
      simp [Phase.breaks, hr, he]
    · show Phase.after (Phase.next .pending call) rest = _
      rw [hn, h2]

/-- In the `try` nothing breaks. -/
theorem trying_calls {id : EventId} {calls : List SqsCall} (h : ∀ call ∈ calls, FinishOp id call.op)
    (hok : ∀ call ∈ calls, call.raised = false) :
    unbroken .trying calls = true ∧ Phase.after .trying calls = .trying := by
  induction calls with
  | nil => exact ⟨rfl, rfl⟩
  | cons call rest ih =>
    obtain ⟨h1, h2⟩ := ih (fun c hc => h c (List.mem_cons_of_mem _ hc)) fun c hc => hok c (List.mem_cons_of_mem _ hc)
    have hr : resets call.op = false := finish_resets (h call List.mem_cons_self)
    have hraised := hok call List.mem_cons_self
    have hn : Phase.next .trying call = .trying := by simp [Phase.next, hr, hraised]
    refine ⟨?_, ?_⟩
    · show (!Phase.breaks .trying call && unbroken (Phase.next .trying call) rest) = _
      rw [hn, h1]
      simp [Phase.breaks]
    · show Phase.after (Phase.next .trying call) rest = _
      rw [hn, h2]

/-- A call of the `try` that raises leads to its handler. -/
theorem trying_raises {id : EventId} {first : List SqsCall} {last : SqsCall}
    (h : ∀ call ∈ first ++ [last], FinishOp id call.op)
    (hok : ∀ call ∈ first, call.raised = false) (hlast : last.raised = true) :
    unbroken .trying (first ++ [last]) = true ∧ Phase.after .trying (first ++ [last]) = .handling := by
  obtain ⟨h1, h2⟩ := trying_calls (fun c hc => h c (List.mem_append_left _ hc)) hok
  have hr : resets last.op = false := finish_resets (h last (by simp))
  rw [unbroken_append, after_append, h1, h2]
  simp [unbroken, Phase.breaks, Phase.after, Phase.next, hr, hlast]

/-! ## The rows of a message -/

/-- The rows of one message from one queue. -/
def messageRows (messageId : String) (queueId : Nat) (s : Store) : List SqsEvent :=
  s.events.filter fun row => row.messageId == messageId && row.queueId == queueId

/-- Nobody else has to do with the message. -/
def Apart (messageId : String) (queueId : Nat) (s s' : Store) : Prop :=
  messageRows messageId queueId s' = messageRows messageId queueId s

theorem Apart.refl (messageId : String) (queueId : Nat) (s : Store) : Apart messageId queueId s s := rfl

section Rows

variable {messageId k : String} {queueId : Nat} {id : EventId} {older : List SqsEvent}
    {P : EventStatus → Prop} {s s' : Store}

theorem messageRows_insert {row : SqsEvent} (h : row.key = ⟨messageId, queueId, k⟩) :
    messageRows messageId queueId (s.insert row) = row :: messageRows messageId queueId s := by
  have hm : row.messageId = messageId := congrArg EventKey.messageId h
  have hq : row.queueId = queueId := congrArg EventKey.queueId h
  simp [messageRows, Store.insert, hm, hq]

theorem messageRows_updateStatus {st : EventStatus} {msg : Option String} :
    messageRows messageId queueId (s.updateStatus id st msg) =
      (messageRows messageId queueId s).map (patch id st msg) := by
  have hkeep : (fun row : SqsEvent => row.messageId == messageId && row.queueId == queueId) ∘ patch id st msg =
      fun row => row.messageId == messageId && row.queueId == queueId := by
    funext row
    have hk := patch_key id st msg row
    have hm : (patch id st msg row).messageId = row.messageId := congrArg EventKey.messageId hk
    have hq : (patch id st msg row).queueId = row.queueId := congrArg EventKey.queueId hk
    simp [hm, hq]
  rw [messageRows, Store.updateStatus, List.filter_map, hkeep]
  rfl

/-- The row of the event in hand is the newest of its message, above the `older` ones, and
    none of those has its id. -/
def Entered (messageId : String) (queueId : Nat) (k : String) (id : EventId) (older : List SqsEvent)
    (P : EventStatus → Prop) (s : Store) : Prop :=
  (∀ row ∈ older, row.id ≠ id) ∧
    ∃ row, messageRows messageId queueId s = row :: older ∧ row.id = id ∧
    row.key = ⟨messageId, queueId, k⟩ ∧ P row.status

theorem Entered.apart (h : Entered messageId queueId k id older P s) (ha : Apart messageId queueId s s') :
    Entered messageId queueId k id older P s' := by
  obtain ⟨ho, row, hrows, hrow⟩ := h
  exact ⟨ho, row, ha.trans hrows, hrow⟩

theorem Entered.mono {Q : EventStatus → Prop} (hq : ∀ st, P st → Q st)
    (h : Entered messageId queueId k id older P s) :
    Entered messageId queueId k id older Q s := by
  obtain ⟨ho, row, hrows, hid, hkey, hst⟩ := h
  exact ⟨ho, row, hrows, hid, hkey, hq _ hst⟩

theorem Entered.any (h : Entered messageId queueId k id older P s) :
    Entered messageId queueId k id older (fun _ => True) s :=
  h.mono fun _ _ => trivial

theorem Entered.updateStatus {Q : EventStatus → Prop} {st : EventStatus} {msg : Option String} (hst : Q st)
    (h : Entered messageId queueId k id older P s) :
    Entered messageId queueId k id older Q (s.updateStatus id st msg) := by
  obtain ⟨ho, row, hrows, hid, hkey, _⟩ := h
  refine ⟨ho, patch id st msg row, ?_,
    by rw [patch_id, hid], by rw [patch_key, hkey], by rwa [patch_status, if_pos hid]⟩
  have hsame : older.map (patch id st msg) = older := by
    refine (List.map_congr_left fun r hr => ?_).trans (List.map_id older)
    exact if_neg (ho r hr)
  rw [messageRows_updateStatus, hrows, List.map_cons, hsame]

theorem entered_insert {worker : Nat} {event : S3Event} {st : EventStatus} {msg : Option String} {row : SqsEvent}
    (hrow : newRow id queueId messageId event st msg = some row) (hf : s.fresh worker id = true) :
    Entered messageId queueId event.key id (messageRows messageId queueId s) (· = st) (s.insert row) := by
  obtain ⟨hid, hkey, hst⟩ := newRow_some hrow
  refine ⟨fun r hr => (fresh_iff.mp hf).2 r (List.mem_filter.mp hr).1, row, messageRows_insert hkey, hid, hkey, hst⟩

end Rows

/-! ## The import of one event -/

section Event

variable {room pid : Nat} {messageId k : String} {queueId : Nat} {id : EventId} {older : List SqsEvent}
    {P : EventStatus → Prop}
  {s s' : Store} {calls : List SqsCall}

/-- The execution of a part of the code that alone has to do with the message. -/
abbrev Alone (room pid : Nat) (messageId : String) (queueId : Nat) {α : Type} (p : SqsProg α) (s : Store)
    (calls : List SqsCall) (x : Except Exc α) (s' : Store) : Prop :=
  Exec (pollers room) (Apart messageId queueId) pid p s calls x s'

theorem did_entered {o : SqsOp} {r : Except Exc o.Ret} (ho : FinishOp id o) (h : Did pid s o r s')
    (he : Entered messageId queueId k id older (fun _ => True) s) :
    Entered messageId queueId k id older (fun _ => True) s' := by
  rcases finish_outside ho with hout | ⟨st, msg, rfl⟩
  · rw [did_outside hout h]
    exact he
  · cases h with
    | updated => exact he.updateStatus trivial
    | raised | answered => exact he

theorem quiet_entered {α : Type} {p : SqsProg α} {x : Except Exc α}
    (h : Alone room pid messageId queueId p s calls x s')
    (hp : p.Uses QuietOp) (he : Entered messageId queueId k id older P s) :
    Entered messageId queueId k id older P s' := by
  refine exec_keeps (fun _ _ he ha => he.apart ha) (fun s s' o r ho he hx => ?_) hp h he
  have hs : s' = s := did_outside (quiet_outside ho) (poller_did hx)
  rw [hs]
  exact he

theorem finish_entered {α : Type} {p : SqsProg α} {x : Except Exc α}
    (h : Alone room pid messageId queueId p s calls x s')
    (hp : p.Uses (FinishOp id)) (he : Entered messageId queueId k id older P s) :
    Entered messageId queueId k id older (fun _ => True) s' :=
  exec_keeps (fun _ _ he ha => he.apart ha) (fun _ _ _ _ ho he hx => did_entered ho (poller_did hx) he) hp h he.any

theorem updateStatus_ok {Q : EventStatus → Prop} {st : EventStatus} {msg : Option String}
    (h : Alone room pid messageId queueId (updateStatus id st msg) s calls (.ok ()) s') (hst : Q st)
    (he : Entered messageId queueId k id older P s) :
    Entered messageId queueId k id older Q s' ∧ ∃ found, calls = [⟨SqsOp.updateStatus id st msg, .ok found⟩] := by
  obtain ⟨s₁, r, s₂, rest, ha, hx, rfl, hk⟩ := h
  cases r with
  | error e => cases hk.2.1
  | ok found =>
    obtain ⟨rfl, _, ha'⟩ := hk
    refine ⟨?_, found, rfl⟩
    cases poller_did hx with
    | updated => exact ((he.apart ha).updateStatus hst).apart ha'
    | answered hout => cases hout

theorem updateStatus_error {st : EventStatus} {msg : Option String} {e : Exc}
    (h : Alone room pid messageId queueId (updateStatus id st msg) s calls (.error e) s') :
    calls = [⟨SqsOp.updateStatus id st msg, .error e⟩] := by
  obtain ⟨s₁, r, s₂, rest, _, _, rfl, hk⟩ := h
  cases r with
  | error e =>
    obtain ⟨rfl, he, _⟩ := hk
    cases he
    rfl
  | ok found => cases hk.2.1

/-- Where it returns before the import, the row has failed. -/
theorem prepare_none {queue : SqsQueue}
    (h : Alone room pid messageId queueId (prepare id queue) s calls (.ok none) s')
    (he : Entered messageId queueId k id older P s) : Entered messageId queueId k id older (· = .failed) s' := by
  have hfailed : ∀ {msg : Option String} {s : Store} {calls : List SqsCall},
      Alone room pid messageId queueId
        (do updateStatus id .failed msg; return none : SqsProg (Option Ready)) s calls (.ok none) s' →
      Entered messageId queueId k id older P s → Entered messageId queueId k id older (· = .failed) s' := by
    intro msg s calls h he
    obtain ⟨_, s₁, _, _, _, hu, hret⟩ := exec_bind_ok (Apart.refl _ _) h
    exact (updateStatus_ok (Q := (· = .failed)) hu rfl he).1.apart hret.2.2
  obtain ⟨dsCred, s₁, _, _, _, hp, h⟩ := exec_bind_ok (Apart.refl _ _) h
  have he := quiet_entered hp (.await rfl) he
  cases dsCred with
  | false => exact hfailed h he
  | true =>
    obtain ⟨token, s₂, _, _, _, hp, h⟩ := exec_bind_ok (Apart.refl _ _) h
    have he := quiet_entered hp (uses_loadLlToken _) he
    obtain ⟨token, s₃, _, _, _, hp, h⟩ := exec_bind_ok (Apart.refl _ _) h
    have he := quiet_entered hp (uses_orLegacyToken _ _) he
    cases ht : truthy token with
    | none => rw [ht] at h; exact hfailed h he
    | some token =>
      rw [ht] at h
      obtain ⟨apiHost, s₄, _, _, _, _, h⟩ := exec_bind_ok (Apart.refl _ _) h
      obtain ⟨_, s₅, _, _, _, _, h⟩ := exec_bind_ok (Apart.refl _ _) h
      cases h.2.1

/-- Where the body of the `try` returns, the row has a final status. -/
theorem importEvent_ok {event : S3Event} {queue : SqsQueue} {rd : Ready}
    (h : Alone room pid messageId queueId (importEvent id event queue rd) s calls (.ok ()) s')
    (he : Entered messageId queueId k id older P s) :
    Entered messageId queueId k id older (·.terminal = true) s' := by
  obtain ⟨_, s₁, _, _, _, hp, h⟩ := exec_bind_ok (Apart.refl _ _) h
  have he := finish_entered hp (.await trivial) he
  obtain ⟨structure_, s₂, _, _, _, hp, h⟩ := exec_bind_ok (Apart.refl _ _) h
  have he := finish_entered hp (.await rfl) he
  obtain ⟨_, s₃, _, _, _, hi, hc⟩ := exec_bind_ok (Apart.refl _ _) h
  refine quiet_entered hc (.await rfl) ?_
  obtain ⟨_ | _, err⟩ := structure_
  · exact (updateStatus_ok (Q := (·.terminal = true)) hi rfl he).1
  · obtain ⟨answer, s₄, _, _, _, hp, hu⟩ := exec_bind_ok (Apart.refl _ _) hi
    exact (updateStatus_ok hu (importOutcome_terminal _ _) (finish_entered hp (.await trivial) he)).1

/-- The `try` keeps its exceptions; it leaves one to its handler. -/
theorem importEvent_phase {event : S3Event} {queue : SqsQueue} {rd : Ready} {x : Except Exc Unit}
    (h : Alone room pid messageId queueId (importEvent id event queue rd) s calls x s') :
    unbroken .pending calls = true ∧ ((∃ e, x = .error e) → Phase.after .pending calls = .handling) := by
  have hu := uses_importEvent id event queue rd
  have hb := bare_importEvent id event queue rd
  obtain ⟨s₁, r, s₂, rest, _, _, rfl, hk⟩ := h
  cases r with
  | error e =>
    obtain ⟨rfl, _, _⟩ := hk
    exact ⟨rfl, fun _ => rfl⟩
  | ok _ =>
    have hfinish := exec_uses (hu.2 (.ok ())) hk
    obtain ⟨hok, herr⟩ := Bare.ends (hb.2 ()) hk
    show unbroken .trying rest = true ∧ (_ → Phase.after .trying rest = .handling)
    cases x with
    | ok a => exact ⟨(trying_calls hfinish (hok a rfl)).1, fun ⟨e, he⟩ => (by cases he)⟩
    | error e =>
      obtain ⟨first, last, rfl, hlast, hfirst⟩ := herr e rfl
      obtain ⟨h1, h2⟩ := trying_raises hfinish hfirst hlast
      exact ⟨h1, fun _ => h2⟩

/-- What `process_s3_event` makes of its pending row: it ends with a final status, or it
    raises what nothing took, and the row stays as it is. -/
theorem finishEvent_row {event : S3Event} {queue : SqsQueue} {x : Except Exc Unit}
    (h : Alone room pid messageId queueId (finishEvent id event queue) s calls x s')
    (he : Entered messageId queueId k id older (· = .pending) s) :
    (x = .ok () → Entered messageId queueId k id older (·.terminal = true) s' ∧ unbroken .pending calls = true) ∧
      ∀ e, x = .error e → e.isException = true →
        Entered messageId queueId k id older (fun _ => True) s' ∧ unbroken .pending calls = false := by
  have hkeep := finish_entered h (uses_finishEvent id event queue) he
  have hprepare : ∀ {x : Except Exc (Option Ready)} {first : List SqsCall} {s' : Store},
      Alone room pid messageId queueId (prepare id queue) s first x s' →
      unbroken .pending first = first.all (!·.raised) ∧ Phase.after .pending first = .pending :=
    fun hp => pending_calls (exec_uses (uses_prepare id queue) hp)
  rcases exec_bind (Apart.refl _ _) h with ⟨e, rfl, hp⟩ | ⟨rd, s₁, first, rest, rfl, hp, h⟩
  · refine ⟨fun hx => (by cases hx), fun e' _ _ => ⟨hkeep, ?_⟩⟩
    obtain ⟨init, last, rfl, hlast, _⟩ := ((bare_prepare id queue).ends hp).2 e rfl
    rw [(hprepare hp).1]
    simp [hlast]
  · have hfirst : unbroken .pending first = true := by
      rw [(hprepare hp).1, List.all_eq_true]
      intro call hc
      rw [((bare_prepare id queue).ends hp).1 rd rfl call hc]
      rfl
    rw [unbroken_append, hfirst, (hprepare hp).2, Bool.true_and]
    cases rd with
    | none =>
      obtain ⟨rfl, rfl, ha⟩ := h
      have hfailed := (prepare_none hp he).mono (Q := (·.terminal = true)) fun st hst => by rw [hst]; rfl
      exact ⟨fun _ => ⟨hfailed.apart ha, rfl⟩, fun e hx => (by cases hx)⟩
    | some rd =>
      have he := finish_entered hp ((uses_prepare id queue).mono status_finish) he
      rcases exec_catching (Apart.refl _ _) h with ⟨a, rfl, hi⟩ | ⟨e, s₂, first, rest, rfl, hi, hf⟩
      · exact ⟨fun _ => ⟨importEvent_ok hi he, (importEvent_phase hi).1⟩, fun e hx => (by cases hx)⟩
      · obtain ⟨h1, h2⟩ := importEvent_phase hi
        rw [unbroken_append, h1, h2 ⟨e, rfl⟩, Bool.true_and]
        have he := finish_entered hi (uses_importEvent id event queue rd) he
        unfold importFailed at hf
        split at hf
        · cases x with
          | ok _ =>
            obtain ⟨hfailed, _, rfl⟩ := updateStatus_ok (Q := (·.terminal = true)) hf rfl he
            exact ⟨fun _ => ⟨hfailed, rfl⟩, fun e hx => (by cases hx)⟩
          | error e' =>
            rw [updateStatus_error hf]
            exact ⟨fun hx => (by cases hx), fun _ _ _ => ⟨hkeep, rfl⟩⟩
        · rename_i hcancel
          obtain ⟨_, rfl, _⟩ := hf
          exact ⟨fun hx => (by cases hx), fun e' hx hexc => absurd (by cases hx; exact hexc) hcancel⟩

/-- A new row of the event's key. -/
def NewRow (messageId : String) (queueId : Nat) (event : S3Event) (s s' : Store) (row : SqsEvent) : Prop :=
  messageRows messageId queueId s' = row :: messageRows messageId queueId s ∧
    row.key = ⟨messageId, queueId, event.key⟩

/-- What an event without a row comes to in `process_s3_event`. -/
theorem processS3Event_row {event : S3Event} {queue : SqsQueue} {x : Except Exc Unit}
    (h : Alone room pid messageId queue.id (processS3Event event queue messageId) s calls x s')
    (hnew : ∀ row ∈ messageRows messageId queue.id s, row.key ≠ ⟨messageId, queue.id, event.key⟩) :
    (x = .ok () → (∃ row, NewRow messageId queue.id event s s' row ∧ row.status.terminal = true) ∧
      unbroken .before calls = true) ∧
      ∀ e, x = .error e → e.isException = true →
        (messageRows messageId queue.id s' = messageRows messageId queue.id s ∧ unbroken .before calls = true ∧
            Phase.after .before calls = .before) ∨
          (∃ row, NewRow messageId queue.id event s s' row) ∧ unbroken .before calls = false := by
  obtain ⟨s₁, r, s₂, rest, ha, hx, rfl, h⟩ := h
  rcases r with e | found
  · obtain ⟨rfl, rfl, ha'⟩ := h
    rw [did_raised (poller_did hx)] at ha'
    exact ⟨fun hx => (by cases hx), fun _ _ _ => Or.inl ⟨ha'.trans ha, rfl, rfl⟩⟩
  obtain ⟨rfl, rfl⟩ := exec_probe pid hx
  have hfound : s₂.existsForMessage ⟨messageId, queue.id, event.key⟩ = false := by
    refine Bool.eq_false_iff.mpr fun hf => ?_
    obtain ⟨row, hrow, hkey⟩ := exists_iff.mp hf
    refine hnew row ?_ hkey
    rw [← ha]
    have hm : row.messageId = messageId := congrArg EventKey.messageId hkey
    have hq : row.queueId = queue.id := congrArg EventKey.queueId hkey
    exact List.mem_filter.mpr ⟨hrow, by simp [hm, hq]⟩
  rw [hfound] at h ⊢
  obtain ⟨s₃, r, s₄, rest, ha₁, hx, rfl, h⟩ := h
  rcases r with e | id
  · obtain ⟨rfl, rfl, ha'⟩ := h
    rw [did_raised (poller_did hx)] at ha'
    exact ⟨fun hx => (by cases hx), fun _ _ _ => Or.inl ⟨(ha'.trans ha₁).trans ha, rfl, rfl⟩⟩
  show _ ∧ ∀ e, _ → _ → _ ∨ _
  have hentered : Entered messageId queue.id event.key id (messageRows messageId queue.id s) (· = .pending) s₄ := by
    cases poller_did hx with
    | created hrow hf =>
      have hrows : messageRows messageId queue.id s₃ = messageRows messageId queue.id s := Eq.trans ha₁ ha
      rw [← hrows]
      exact entered_insert hrow hf
    | answered hout => cases hout
  obtain ⟨hok, herr⟩ := finishEvent_row h hentered
  refine ⟨fun hx => ?_, fun e hx hexc => Or.inr ?_⟩
  · obtain ⟨⟨_, row, hrows, _, hkey, hst⟩, hu⟩ := hok hx
    exact ⟨⟨row, ⟨hrows, hkey⟩, hst⟩, hu⟩
  · obtain ⟨⟨_, row, hrows, _, hkey, _⟩, hu⟩ := herr e hx hexc
    exact ⟨⟨row, hrows, hkey⟩, hu⟩

/-- One row, and final. -/
def Single (rows : List SqsEvent) : Prop := ∃ row, rows = [row] ∧ row.status.terminal = true

/-- An event without a row that is done with has one row, and that final, if nothing broke;
    otherwise it has two. -/
theorem handleEvent_rows {event : S3Event} {queue : SqsQueue} {n n' : Nat}
    (h : Alone room pid messageId queue.id (handleEvent event queue messageId n) s calls (.ok n') s')
    (hnew : ∀ row ∈ messageRows messageId queue.id s, row.key ≠ ⟨messageId, queue.id, event.key⟩) :
    ∃ rows, messageRows messageId queue.id s' = rows ++ messageRows messageId queue.id s ∧
      (∀ row ∈ rows, row.key = ⟨messageId, queue.id, event.key⟩) ∧ (Single rows ↔ unbroken .before calls = true) := by
  rcases exec_catching (Apart.refl _ _) h with ⟨_, _, hall⟩ | ⟨e, s₁, first, rest, rfl, hp, hf⟩
  · obtain ⟨_, s₂, first, _, rfl, hp, hret⟩ := exec_bind_ok (Apart.refl _ _) hall
    obtain ⟨rfl, _, ha⟩ := hret
    obtain ⟨⟨row, ⟨hrows, hkey⟩, hst⟩, hu⟩ := (processS3Event_row hp hnew).1 rfl
    rw [List.append_nil]
    refine ⟨[row], Eq.trans ha hrows, fun r hr => ?_, fun _ => hu, fun _ => ⟨row, rfl, hst⟩⟩
    rw [List.mem_singleton.mp hr, hkey]
  · have hprocess : Alone room pid messageId queue.id (processS3Event event queue messageId) s first
        (.error e) s₁ := by
      rcases exec_bind (Apart.refl _ _) hp with ⟨_, he, hp⟩ | ⟨_, _, _, _, rfl, _, hret⟩
      · cases he; exact hp
      · cases hret.2.1
    unfold eventFailed at hf
    split at hf
    · rename_i hexc
      obtain ⟨s₂, r, s₃, _, ha, hx, rfl, hret⟩ := hf
      rcases r with e' | id
      · cases hret.2.1
      obtain ⟨rfl, _, ha'⟩ := hret
      obtain ⟨failed, hrow, hkey, hst⟩ :
        ∃ row, messageRows messageId queue.id s₃ = row :: messageRows messageId queue.id s₁ ∧
          row.key = ⟨messageId, queue.id, event.key⟩ ∧ row.status = .failed := by
        cases poller_did hx with
        | recorded hrow _ =>
          obtain ⟨_, hkey, hst⟩ := newRow_some hrow
          exact ⟨_, (messageRows_insert hkey).trans (congrArg _ ha), hkey, hst⟩
        | answered hout => cases hout
      have hfinal : messageRows messageId queue.id s' = failed :: messageRows messageId queue.id s₁ :=
        Eq.trans ha' hrow
      rw [unbroken_append]
      rcases (processS3Event_row hprocess hnew).2 e rfl hexc with ⟨hrows, hu, hafter⟩ | ⟨⟨row, hrows, hkey'⟩, hu⟩
      · rw [hu, hafter, hfinal, hrows]
        refine ⟨[failed], rfl, fun r hr => ?_, fun _ => rfl, fun _ => ⟨failed, rfl, by rw [hst]; rfl⟩⟩
        rw [List.mem_singleton.mp hr, hkey]
      · rw [hu, hfinal, hrows]
        refine ⟨[failed, row], rfl, fun r hr => ?_, fun ⟨_, hone, _⟩ => (by cases hone),
          fun hfalse => (by cases hfalse)⟩
        rcases List.mem_cons.mp hr with rfl | hr
        · exact hkey
        · rw [List.mem_singleton.mp hr, hkey']
    · cases hf.2.1

/-! ## One message -/

/-- The first call for the events of a message is a probe. -/
theorem handleEvents_head {queue : SqsQueue} {events : List S3Event} {n : Nat} {x : Except Exc Nat}
    (h : Alone room pid messageId queueId (handleEvents queue messageId events n) s calls x s') :
    ∀ call ∈ calls.head?, resets call.op = true := by
  induction events with
  | nil =>
    rw [h.1]
    intro call hc
    cases hc
  | cons event rest ih =>
    unfold handleEvents at h
    split at h
    · obtain ⟨s₁, r, s₂, rest, _, _, rfl, _⟩ := h
      intro call hc
      cases hc
      rfl
    · exact ih h

theorem handleEvents_rows {queue : SqsQueue} {events : List S3Event} {n n' : Nat}
    (h : Alone room pid messageId queue.id (handleEvents queue messageId events n) s calls (.ok n') s')
    (hdistinct : (eventKeys queue messageId events).Nodup)
    (hnew : ∀ row ∈ messageRows messageId queue.id s, row.key ∉ eventKeys queue messageId events) :
    ∃ rows, messageRows messageId queue.id s' = rows ++ messageRows messageId queue.id s ∧
      (∀ row ∈ rows, row.key ∈ eventKeys queue messageId events) ∧
        ((∀ key ∈ eventKeys queue messageId events, Single (rows.filter (·.key == key))) ↔
          unbroken .before calls = true) := by
  induction events generalizing s calls n with
  | nil =>
    obtain ⟨rfl, _, ha⟩ := h
    exact ⟨[], ha, fun _ hr => (by cases hr), fun _ => rfl, fun _ _ hk => (by cases hk)⟩
  | cons event rest ih =>
    unfold handleEvents at h
    split at h
    · rename_i hcreate
      rw [eventKeys_create hcreate] at hdistinct hnew ⊢
      obtain ⟨hfirst, hdistinct⟩ := List.nodup_cons.mp hdistinct
      obtain ⟨n₁, s₁, first, later, rfl, hp, hrest⟩ := exec_bind_ok (Apart.refl _ _) h
      obtain ⟨rows, hrows, hkeys, hsingle⟩ :=
        handleEvent_rows hp fun row hr he => hnew row hr (by rw [he]; exact List.mem_cons_self)
      obtain ⟨rows', hrows', hkeys', hsingle'⟩ := ih hrest hdistinct fun row hr hm => by
        rw [hrows] at hr
        rcases List.mem_append.mp hr with hr | hr
        · exact hfirst (hkeys row hr ▸ hm)
        · exact hnew row hr (List.mem_cons_of_mem _ hm)
      -- the rows of one event are untouched by the next ones
      have hself : (rows' ++ rows).filter (·.key == ⟨messageId, queue.id, event.key⟩) = rows := by
        rw [List.filter_append, List.filter_eq_nil_iff.mpr, List.filter_eq_self.mpr, List.nil_append]
        · exact fun r hr => by simp [hkeys r hr]
        · exact fun r hr he => hfirst (by rw [← eq_of_beq he]; exact hkeys' r hr)
      have hothers : ∀ key ∈ eventKeys queue messageId rest, (rows' ++ rows).filter (·.key == key) =
          rows'.filter (·.key == key) := by
        intro key hk
        have hnone : rows.filter (·.key == key) = [] :=
          List.filter_eq_nil_iff.mpr fun r hr he => hfirst (by rw [← hkeys r hr, eq_of_beq he]; exact hk)
        rw [List.filter_append, hnone, List.append_nil]
      refine ⟨rows' ++ rows, by rw [hrows', hrows, List.append_assoc], fun row hr => ?_, ?_⟩
      · rcases List.mem_append.mp hr with hr | hr
        · exact List.mem_cons_of_mem _ (hkeys' row hr)
        · rw [hkeys row hr]; exact List.mem_cons_self
      · rw [unbroken_append, unbroken_reset (handleEvents_head hrest), Bool.and_eq_true, ← hsingle,
          ← hsingle', List.forall_mem_cons, hself]
        exact and_congr_right fun _ => forall₂_congr fun key hk => by rw [hothers key hk]
    · rename_i hno
      rw [eventKeys_other hno] at hdistinct hnew ⊢
      exact ih h hdistinct hnew

theorem deleteMessage_rows {queue : SqsQueue} {receiptHandle : String} {x : Except Exc Unit}
    (h : Alone room pid messageId queueId (deleteMessage queue receiptHandle) s calls x s') :
    messageRows messageId queueId s' = messageRows messageId queueId s ∧ ∀ ph, unbroken ph calls = true := by
  have hrows : messageRows messageId queueId s' = messageRows messageId queueId s := by
    refine exec_keeps (M := pollers room) (P := (SqsOp.outside · = true))
      (I := fun s₁ => messageRows messageId queueId s₁ = messageRows messageId queueId s)
      (fun _ _ he ha => Eq.trans ha he) (fun s₁ s₂ o r ho he hx => ?_) (uses_deleteMessage rfl) h rfl
    have hs : s₂ = s₁ := did_outside ho (poller_did hx)
    rw [hs]
    exact he
  obtain ⟨s₁, r, s₂, rest, _, _, rfl, hk⟩ := h
  rcases r with (e | e | _) | b <;> obtain ⟨rfl, _, _⟩ := hk <;>
    exact ⟨hrows, fun ph => by simp [unbroken, Phase.breaks, resets]⟩

end Event

/-- Each key has one row, and its status is final. -/
def Accounted (keys : List EventKey) (s : Store) : Prop := ∀ key ∈ keys, Single (s.events.filter (·.key == key))

theorem filter_messageRows {messageId : String} {queueId : Nat} {k : String} (s : Store) :
    (messageRows messageId queueId s).filter (·.key == ⟨messageId, queueId, k⟩) =
      s.events.filter (·.key == ⟨messageId, queueId, k⟩) := by
  rw [messageRows, List.filter_filter]
  refine List.filter_congr fun row _ => ?_
  by_cases hk : row.key = ⟨messageId, queueId, k⟩
  · have hm : row.messageId = messageId := congrArg EventKey.messageId hk
    have hq : row.queueId = queueId := congrArg EventKey.queueId hk
    simp [hk, hm, hq]
  · simp [hk]

theorem rows_none {s : Store} {key : EventKey} (h : s.existsForMessage key = false) :
    s.events.filter (·.key == key) = [] := by
  refine List.filter_eq_nil_iff.mpr fun row hr he => ?_
  have hfound := exists_iff.mpr ⟨row, hr, eq_of_beq he⟩
  rw [h] at hfound
  cases hfound

/-- For one delivery of a message whose events have distinct keys and no rows, worked off
    without a crash while nobody else has to do with it: every event has exactly one row
    and that a final status, exactly when no call raised between the commit of a pending
    row and the inner `try`, or in the 'failed' write of its handler. -/
theorem accounted_iff {room pid n n' : Nat} {queue : SqsQueue} {message : Message} {s s' : Store}
    {calls : List SqsCall}
    (h : Alone room pid (message.messageId.getD "") queue.id (handleMessage room queue message n) s calls (.ok n') s')
    (hdistinct : (messageKeys room queue message).Nodup)
    (hnew : ∀ key ∈ messageKeys room queue message, s.existsForMessage key = false) :
    Accounted (messageKeys room queue message) s' ↔ unbroken .before calls = true := by
  unfold handleMessage at h
  split at h
  · cases h.2.1
  · rename_i events hparse
    rw [messageKeys_ok hparse] at hdistinct hnew ⊢
    obtain ⟨n₁, s₁, first, later, rfl, hp, h⟩ := exec_bind_ok (Apart.refl _ _) h
    obtain ⟨_, s₂, last, _, rfl, hdel, hret⟩ := exec_bind_ok (Apart.refl _ _) h
    obtain ⟨rfl, _, ha⟩ := hret
    obtain ⟨rows, hrows, hkeys, hsingle⟩ := handleEvents_rows hp hdistinct fun row hr hm =>
      List.filter_eq_nil_iff.mp (rows_none (hnew _ hm)) row (List.mem_filter.mp hr).1 (beq_self_eq_true _)
    obtain ⟨hlast, hunbroken⟩ := deleteMessage_rows hdel
    rw [List.append_nil, unbroken_append, hunbroken, Bool.and_true, ← hsingle]
    have hfinal : messageRows (message.messageId.getD "") queue.id s' =
        rows ++ messageRows (message.messageId.getD "") queue.id s :=
      Eq.trans ha (hlast.trans hrows)
    refine forall₂_congr fun key hk => ?_
    obtain ⟨event, _, rfl⟩ := List.mem_map.mp hk
    rw [← filter_messageRows, hfinal, List.filter_append, filter_messageRows, rows_none (hnew _ hk), List.append_nil]

def putEvent : S3Event := ⟨.str "ObjectCreated:Put", .str "b", "k", .null, .null, .null⟩

set_option maxRecDepth 50000 in
theorem parse_put : parseS3Events 9 ((putMessage "h").body.getD "") = .ok [putEvent] := by rfl

-- otherwise an execution's type is a computation that parses the body
attribute [local irreducible] parseS3Events

theorem messageKeys_put : messageKeys 9 theQueue (putMessage "h") = [putKey] := messageKeys_ok parse_put

def lookupError : Exc := .exception "connection is closed"

/-- The row that the failure recorder inserts, under its process' `draw`th uuid. -/
def failedRow (draw : Nat) : SqsEvent :=
  ⟨⟨0, draw⟩, 1, "m", "ObjectCreated:Put", "b", "k", none, .failed, some (pyTake 200 lookupError.text)⟩

def pendingRow : SqsEvent := ⟨⟨0, 0⟩, 1, "m", "ObjectCreated:Put", "b", "k", none, .pending, none⟩

/-- The INSERT of the pending row raises. -/
def insertRaises : List SqsCall :=
  [⟨SqsOp.existsForMessage putKey, .ok false⟩, ⟨SqsOp.createEvent 1 "m" putEvent, .error lookupError⟩,
    ⟨SqsOp.recordFailed 1 "m" putEvent (pyTake 200 lookupError.text), .ok ⟨0, 0⟩⟩,
    ⟨SqsOp.deleteMessage theQueue "h", .ok true⟩]

/-- The credential lookup behind it raises. -/
def lookupRaises : List SqsCall :=
  [⟨SqsOp.existsForMessage putKey, .ok false⟩, ⟨SqsOp.createEvent 1 "m" putEvent, .ok ⟨0, 0⟩⟩,
    ⟨SqsOp.getForDatastoreUser "datastore" none, .error lookupError⟩,
    ⟨SqsOp.recordFailed 1 "m" putEvent (pyTake 200 lookupError.text), .ok ⟨0, 1⟩⟩,
    ⟨SqsOp.deleteMessage theQueue "h", .ok true⟩]

theorem exec_pending : Store.exec 0 idleStore (.createEvent 1 "m" putEvent) (.ok ⟨0, 0⟩) =
    some (idleStore.insert pendingRow) := by
  decide +kernel

theorem exec_failed : Store.exec 0 idleStore (.recordFailed 1 "m" putEvent (pyTake 200 lookupError.text))
    (.ok ⟨0, 0⟩) =
      some (idleStore.insert (failedRow 0)) := by
  decide +kernel

theorem exec_both : Store.exec 0 (idleStore.insert pendingRow)
    (.recordFailed 1 "m" putEvent (pyTake 200 lookupError.text))
    (.ok ⟨0, 1⟩) = some ((idleStore.insert pendingRow).insert (failedRow 1)) := by
  decide +kernel

theorem alone_insertRaises : Alone 9 0 "m" 1
    (handleMessage 9 theQueue (putMessage "h") 0) idleStore insertRaises (.ok 0)
    (idleStore.insert (failedRow 0)) := by
  unfold handleMessage
  rw [parse_put]
  refine ⟨idleStore, .ok false, idleStore, _, rfl, rfl, rfl, ?_⟩
  refine ⟨idleStore, .error lookupError, idleStore, _, rfl, rfl, rfl, ?_⟩
  refine ⟨idleStore, .ok ⟨0, 0⟩, _, _, rfl, exec_failed, rfl, ?_⟩
  exact ⟨_, .ok true, _, [], rfl, rfl, rfl, rfl, rfl, rfl⟩

theorem alone_lookupRaises : Alone 9 0 "m" 1
    (handleMessage 9 theQueue (putMessage "h") 0) idleStore lookupRaises (.ok 0)
    ((idleStore.insert pendingRow).insert (failedRow 1)) := by
  unfold handleMessage
  rw [parse_put]
  refine ⟨idleStore, .ok false, idleStore, _, rfl, rfl, rfl, ?_⟩
  refine ⟨idleStore, .ok ⟨0, 0⟩, _, _, rfl, exec_pending, rfl, ?_⟩
  refine ⟨_, .error lookupError, _, _, rfl, rfl, rfl, ?_⟩
  refine ⟨_, .ok ⟨0, 1⟩, _, _, rfl, exec_both, rfl, ?_⟩
  exact ⟨_, .ok true, _, [], rfl, rfl, rfl, rfl, rfl, rfl⟩

theorem accounted_inserted : Accounted (messageKeys 9 theQueue (putMessage "h")) (idleStore.insert (failedRow 0)) ↔
    unbroken .before insertRaises = true :=
  @accounted_iff 9 0 0 0 theQueue (putMessage "h") _ _ _ alone_insertRaises
    (by rw [messageKeys_put]; decide) (by rw [messageKeys_put]; decide)

/-- The failed lookup leaves a pending and a failed row. -/
theorem counted_twice : ∃ s', Alone 9 0 "m" 1
    (handleMessage 9 theQueue (putMessage "h") 0) idleStore lookupRaises (.ok 0) s' ∧
    (messageKeys 9 theQueue (putMessage "h")).Nodup ∧
      (∀ key ∈ messageKeys 9 theQueue (putMessage "h"), idleStore.existsForMessage key = false) ∧
        ¬ Accounted (messageKeys 9 theQueue (putMessage "h")) s' := by
  refine ⟨(idleStore.insert pendingRow).insert (failedRow 1), alone_lookupRaises, ?_⟩
  rw [messageKeys_put]
  refine ⟨by decide, by decide, fun h => ?_⟩
  obtain ⟨row, hrow, _⟩ := h putKey List.mem_cons_self
  have htwo : (((idleStore.insert pendingRow).insert (failedRow 1)).events.filter (·.key == putKey)).length = 1 :=
    congrArg List.length hrow
  exact absurd htwo (by decide)

end Connect.Sqs
