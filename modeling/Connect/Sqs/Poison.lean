/-
  Connect.Sqs.Poison — what makes `poll_single_queue` leave messages behind.

  `parse_s3_events` is called outside the `try` around one event and catches
  JSONDecodeError only, so a body that is JSON of another shape ends the receive: its
  message is not deleted and comes back for ever, and the messages behind it wait
  (`poisoned`). Besides that, the failure recorder may raise in its turn, `delete_message`
  may raise something else than SQSError, and the task may be cancelled.

  `handled_iff`: these are the only ways out. In every execution of `poll_single_queue`,
  with any interference of others, every create event of every message is attempted and
  every message deleted once, in order, exactly when every body parses, no failure
  recorder raises, nothing is cancelled, and no `delete_message` but the last lets an
  exception through.
-/

import Connect.Sqs.Poller

namespace Connect.Sqs

open Await

/-- The event that a call attempts: `process_s3_event` begins with its probe. -/
def attempted : SqsCall → Option EventKey
  | ⟨.existsForMessage key, _⟩ => some key
  | _ => none

/-- The message that a call deletes, and what came of it. -/
def deletion : SqsCall → Option ((SqsQueue × String) × Except Exc Bool)
  | ⟨.deleteMessage queue receiptHandle, r⟩ => some ((queue, receiptHandle), r)
  | _ => none

def records : SqsOp → Bool
  | .recordFailed _ _ _ _ => true
  | _ => false

def attempts (calls : List SqsCall) : List EventKey := calls.filterMap attempted

def deletions (calls : List SqsCall) : List ((SqsQueue × String) × Except Exc Bool) := calls.filterMap deletion

/-- The failure recorder raised, or the task was cancelled. -/
def Stops (call : SqsCall) : Prop :=
  (records call.op = true ∧ ∃ e, call.ans = .error e) ∨ call.ans = .error .cancelled

/-- Taken by `except SQSError`. -/
def Passes : Except Exc Bool → Prop
  | .ok _ | .error (.sqsError _) => True
  | .error _ => False

def messageHandle (queue : SqsQueue) (message : Message) : SqsQueue × String := (queue, message.receiptHandle.getD "")

/-- Every create event of every message is attempted, and every message deleted once. -/
structure Handled (room : Nat) (queue : SqsQueue) (messages : List Message) (calls : List SqsCall) : Prop where
  attempts : attempts calls = messages.flatMap (messageKeys room queue)
  deletions : (deletions calls).map (·.1) = messages.map (messageHandle queue)

/-- No body, recorder, cancellation or deletion ends the loop before its end. -/
structure Isolated (room : Nat) (messages : List Message) (calls : List SqsCall) : Prop where
  parses : ∀ message ∈ messages, ∃ events, parseS3Events room (message.body.getD "") = .ok events
  stops : ∀ call ∈ calls, ¬ Stops call
  deletes : ∀ d ∈ (deletions calls).take (messages.length - 1), Passes d.2

/-! ## One event -/

section Event

variable {room pid : Nat} {s s' : Store} {calls : List SqsCall}

def anyway (_ _ : Store) : Prop := True

/-- The execution of a part of the code among any others. -/
abbrev Runs (room pid : Nat) {α : Type} (p : SqsProg α) (s : Store) (calls : List SqsCall)
    (x : Except Exc α) (s' : Store) : Prop :=
  Exec (pollers room) anyway pid p s calls x s'

theorem isException_iff {e : Exc} : e.isException = true ↔ e ≠ .cancelled := by
  cases e <;> simp [Exc.isException]

theorem prompt_finishEvent (id : EventId) (event : S3Event) (queue : SqsQueue) :
    Prompt .cancelled (finishEvent id event queue) := by
  refine .bind (bare_prepare id queue).prompt fun r => ?_
  cases r with
  | none => trivial
  | some r =>
    refine .catching (bare_importEvent id event queue r).prompt (fun e he => ?_) rfl
    rw [importFailed, if_pos (isException_iff.mpr he)]
    exact (bare_updateStatus _ _ _).prompt

theorem prompt_processS3Event (event : S3Event) (queue : SqsQueue) (messageId : String) :
    Prompt .cancelled (processS3Event event queue messageId) := by
  refine .bind (.bind (.await _) fun found => ?_) fun id => ?_
  · cases found with
    | true => trivial
    | false => exact .bind (.await _) fun _ => trivial
  · cases id with
    | none => trivial
    | some id => exact prompt_finishEvent id event queue

/-- The operations of `process_s3_event` behind its probe. -/
def LaterOp : SqsOp → Prop
  | .existsForMessage _ | .recordFailed _ _ _ _ | .deleteMessage _ _ => False
  | _ => True

theorem finish_later {id : EventId} (o : SqsOp) (h : FinishOp id o) : LaterOp o := by
  cases o <;> trivial

/-- `process_s3_event` is its probe, then other operations. -/
theorem processS3Event_probe (event : S3Event) (queue : SqsQueue) (messageId : String) :
    ∃ k, processS3Event event queue messageId = .op (SqsOp.existsForMessage ⟨messageId, queue.id, event.key⟩) k ∧
      ∀ r, (k r).Uses LaterOp := by
  refine ⟨_, rfl, fun r => ?_⟩
  rcases r with e | _ | _
  · trivial
  · refine ⟨trivial, fun r => ?_⟩
    cases r with
    | error e => trivial
    | ok id => exact (uses_finishEvent id event queue).mono finish_later
  · trivial

theorem attempts_nil (h : ∀ call ∈ calls, LaterOp call.op) : attempts calls = [] := by
  refine List.filterMap_eq_nil_iff.mpr fun call hc => ?_
  have := h call hc
  obtain ⟨o, r⟩ := call
  cases o <;> first | rfl | cases this

theorem deletions_nil (h : ∀ call ∈ calls, ∀ queue handle, call.op ≠ .deleteMessage queue handle) :
    deletions calls = [] := by
  refine List.filterMap_eq_nil_iff.mpr fun call hc => ?_
  have := h call hc
  obtain ⟨o, r⟩ := call
  cases o <;> first | rfl | exact absurd rfl (this _ _)

theorem runs_processS3Event {event : S3Event} {queue : SqsQueue} {messageId : String} {x : Except Exc Unit}
    (h : Runs room pid (processS3Event event queue messageId) s calls x s') :
    attempts calls = [⟨messageId, queue.id, event.key⟩] ∧ deletions calls = [] ∧
      (x = .error .cancelled ↔ ∃ call ∈ calls, Stops call) := by
  have hprompt := (prompt_processS3Event event queue messageId).ends h
  obtain ⟨k, hk, hu⟩ := processS3Event_probe event queue messageId
  rw [Runs, hk] at h
  obtain ⟨s₁, r, s₂, rest, _, _, rfl, hrest⟩ := h
  have hlater := exec_uses (hu r) hrest
  have hno : ∀ call ∈ (⟨SqsOp.existsForMessage ⟨messageId, queue.id, event.key⟩, r⟩ : SqsCall) :: rest,
      records call.op = false := by
    intro call hc
    rcases List.mem_cons.mp hc with rfl | hc
    · rfl
    · have := hlater call hc
      obtain ⟨o, r⟩ := call
      cases o <;> first | rfl | cases this
  refine ⟨?_, ?_, ?_⟩
  · show (⟨messageId, queue.id, event.key⟩ : EventKey) :: attempts rest = _
    rw [attempts_nil hlater]
  · show deletions rest = []
    refine deletions_nil fun call hc q h e => ?_
    have := hlater call hc
    rw [e] at this
    exact this
  · rw [hprompt]
    constructor
    · exact fun ⟨call, hc, h⟩ => ⟨call, hc, Or.inr h⟩
    · intro h
      obtain ⟨call, hc, ⟨h, _⟩ | h⟩ := h
      · rw [hno call hc] at h; cases h
      · exact ⟨call, hc, h⟩

theorem attempts_append (a b : List SqsCall) : attempts (a ++ b) = attempts a ++ attempts b := List.filterMap_append
theorem deletions_append (a b : List SqsCall) : deletions (a ++ b) = deletions a ++ deletions b :=
  List.filterMap_append

theorem stops_append {a b : List SqsCall} :
    (∃ call ∈ a ++ b, Stops call) ↔ (∃ call ∈ a, Stops call) ∨ ∃ call ∈ b, Stops call := by
  simp only [List.mem_append, or_and_right, exists_or]

/-- One event: it is attempted, and it ends the loop only by a call that stops. -/
theorem runs_handleEvent {event : S3Event} {queue : SqsQueue} {messageId : String} {n : Nat} {x : Except Exc Nat}
    (h : Runs room pid (handleEvent event queue messageId n) s calls x s') :
    attempts calls = [⟨messageId, queue.id, event.key⟩] ∧ deletions calls = [] ∧
      ((∃ e, x = .error e) ↔ ∃ call ∈ calls, Stops call) := by
  rcases exec_catching (fun _ => trivial) h with ⟨a, rfl, hp⟩ | ⟨e, s₁, first, rest, rfl, hp, hh⟩
  · rcases exec_bind (fun _ => trivial) hp with ⟨e, he, _⟩ | ⟨_, s₂, first, rest, rfl, hp, hrest⟩
    · cases he
    · obtain ⟨ha, hd, hs⟩ := runs_processS3Event hp
      obtain ⟨rfl, _, _⟩ := hrest
      rw [List.append_nil]
      exact ⟨ha, hd, by rw [← hs]; simp⟩
  · have hfirst : Runs room pid (processS3Event event queue messageId) s first (.error e) s₁ := by
      rcases exec_bind (fun _ => trivial) hp with ⟨e', he, hp⟩ | ⟨_, s₂, first, rest, rfl, hp, hrest⟩
      · cases he; exact hp
      · obtain ⟨_, hne, _⟩ := hrest; cases hne
    obtain ⟨ha, hd, hs⟩ := runs_processS3Event hfirst
    rw [attempts_append, deletions_append, ha, hd, stops_append, ← hs]
    by_cases he : e.isException = true
    · rw [eventFailed, if_pos he] at hh
      have hnot : (Except.error e : Except Exc Unit) ≠ .error .cancelled := fun h => by cases h; cases he
      rcases exec_bind (fun _ => trivial) hh with ⟨e', rfl, hr⟩ | ⟨id, s₂, first', rest', rfl, hr, hret⟩
      · obtain ⟨_, _, _, _, _, rfl⟩ := exec_await hr
        exact ⟨rfl, rfl, fun _ => Or.inr ⟨_, List.mem_singleton_self _, Or.inl ⟨rfl, e', rfl⟩⟩, fun _ => ⟨e', rfl⟩⟩
      · obtain ⟨_, _, _, _, _, rfl⟩ := exec_await hr
        obtain ⟨rfl, rfl, _⟩ := hret
        refine ⟨rfl, rfl, fun ⟨_, h⟩ => (by cases h), fun h => ?_⟩
        rcases h with h | ⟨call, hc, h⟩
        · exact absurd h hnot
        · cases List.mem_singleton.mp hc
          rcases h with ⟨_, _, h⟩ | h <;> cases h
    · rw [eventFailed, if_neg he] at hh
      obtain ⟨rfl, rfl, _⟩ := hh
      have : e = .cancelled := by simpa [isException_iff] using he
      subst this
      simp [attempts, deletions]

theorem runs_handleEvents {queue : SqsQueue} {messageId : String} {events : List S3Event} {n : Nat}
    {x : Except Exc Nat} (h : Runs room pid (handleEvents queue messageId events n) s calls x s') :
    deletions calls = [] ∧ ((∃ e, x = .error e) ↔ ∃ call ∈ calls, Stops call) ∧
      ∀ a, x = .ok a → attempts calls = eventKeys queue messageId events := by
  induction events generalizing s calls n with
  | nil =>
    obtain ⟨rfl, rfl, _⟩ := h
    exact ⟨rfl, by simp, fun _ _ => rfl⟩
  | cons event rest ih =>
    unfold handleEvents at h
    split at h
    · rename_i hcreate
      rcases exec_bind (fun _ => trivial) h with ⟨e, rfl, hp⟩ | ⟨n', s₁, first, later, rfl, hp, hrest⟩
      · obtain ⟨_, hd, hs⟩ := runs_handleEvent hp
        refine ⟨hd, ?_, fun a h => by cases h⟩
        rw [← hs]
      · obtain ⟨ha, hd, hs⟩ := runs_handleEvent hp
        obtain ⟨hd', hs', ha'⟩ := ih hrest
        refine ⟨by rw [deletions_append, hd, hd']; rfl, ?_, fun a hx => ?_⟩
        · rw [stops_append, ← hs, hs']
          simp
        · rw [attempts_append, ha, ha' a hx, eventKeys_create hcreate]
          rfl
    · rename_i hno
      rw [eventKeys_other hno]
      exact ih h

/-- How one message ends. -/
inductive MessageEnd (room : Nat) (queue : SqsQueue) (message : Message) (calls : List SqsCall) :
    Except Exc Nat → Prop
  /-- It is done and deleted, as far as the loop knows. -/
  | deleted (n : Nat) (r : Except Exc Bool) : (∃ events, parseS3Events room (message.body.getD "") = .ok events) →
      attempts calls = messageKeys room queue message →
      deletions calls = [(messageHandle queue message, r)] → Passes r →
      (∀ call ∈ calls, ¬ Stops call) → MessageEnd room queue message calls (.ok n)
  | unparsed (e : Exc) : parseS3Events room (message.body.getD "") = .error e → calls = [] →
      MessageEnd room queue message calls (.error e)
  | stopped (e : Exc) : deletions calls = [] → (∃ call ∈ calls, Stops call) →
      MessageEnd room queue message calls (.error e)
  | refused (e : Exc) (r : Except Exc Bool) : (∃ events, parseS3Events room (message.body.getD "") = .ok events) →
      attempts calls = messageKeys room queue message →
      deletions calls = [(messageHandle queue message, r)] → ¬ Passes r →
      (∀ call ∈ calls, ¬ Stops call) → MessageEnd room queue message calls (.error e)

/-- The call of `delete_message` is not awaited, so it cannot be cancelled. -/
theorem runs_delete {queue : SqsQueue} {receiptHandle : String} {x : Except Exc Unit}
    (h : Runs room pid (deleteMessage queue receiptHandle) s calls x s') :
    ∃ r, calls = [⟨SqsOp.deleteMessage queue receiptHandle, r⟩] ∧ r ≠ .error .cancelled ∧
    ((∃ e, x = .error e) ↔ ¬ Passes r) := by
  obtain ⟨s₁, r, s₂, rest, _, hx, rfl, hk⟩ := h
  have hcancel : r ≠ .error .cancelled := by
    intro h
    subst h
    simp [pollers, Store.exec, SqsOp.awaited] at hx
  refine ⟨r, ?_⟩
  rcases r with (e | e | _) | b
  · obtain ⟨rfl, rfl, _⟩ := hk
    exact ⟨rfl, hcancel, by simp [Passes]⟩
  · obtain ⟨rfl, rfl, _⟩ := hk
    exact ⟨rfl, hcancel, by simp [Passes]⟩
  · exact absurd rfl hcancel
  · obtain ⟨rfl, rfl, _⟩ := hk
    exact ⟨rfl, hcancel, by simp [Passes]⟩

theorem runs_handleMessage {queue : SqsQueue} {message : Message} {n : Nat} {x : Except Exc Nat}
    (h : Runs room pid (handleMessage room queue message n) s calls x s') :
    MessageEnd room queue message calls x := by
  unfold handleMessage at h
  split at h
  · rename_i e hparse
    obtain ⟨rfl, rfl, _⟩ := h
    exact .unparsed e hparse rfl
  · rename_i events hparse
    rcases exec_bind (fun _ => trivial) h with ⟨e, rfl, hp⟩ | ⟨n', s₁, first, rest, rfl, hp, hrest⟩
    · obtain ⟨hd, hs, _⟩ := runs_handleEvents hp
      exact .stopped e hd (hs.mp ⟨e, rfl⟩)
    · obtain ⟨hd, hs, ha⟩ := runs_handleEvents hp
      have hfirst : ∀ call ∈ first, ¬ Stops call := by
        intro call hc hstop
        obtain ⟨e, he⟩ := hs.mpr ⟨call, hc, hstop⟩
        cases he
      have hend : ∀ {x : Except Exc Unit} {last : List SqsCall} {s s' : Store},
          Runs room pid (deleteMessage queue (message.receiptHandle.getD "")) s last x s' →
          ∃ r, ((∃ e, x = .error e) ↔ ¬ Passes r) ∧ attempts (first ++ last) = messageKeys room queue message ∧
            deletions (first ++ last) = [(messageHandle queue message, r)] ∧
            ∀ call ∈ first ++ last, ¬ Stops call := by
        intro x last s s' hdel
        obtain ⟨r, rfl, hcancel, hr⟩ := runs_delete hdel
        refine ⟨r, hr, ?_, ?_, ?_⟩
        · rw [attempts_append, ha n' rfl, messageKeys_ok hparse]
          exact List.append_nil _
        · rw [deletions_append, hd]
          rfl
        · intro call hc
          rcases List.mem_append.mp hc with hc | hc
          · exact hfirst call hc
          · cases List.mem_singleton.mp hc
            intro h
            rcases h with ⟨h, _⟩ | h
            · cases h
            · exact hcancel h
      rcases exec_bind (fun _ => trivial) hrest with ⟨e, rfl, hdel⟩ | ⟨_, s₂, last, tail, rfl, hdel, hret⟩
      · obtain ⟨r, hr, ha', hd', hs'⟩ := hend hdel
        exact .refused e r ⟨events, hparse⟩ ha' hd' (hr.mp ⟨e, rfl⟩) hs'
      · obtain ⟨r, hr, ha', hd', hs'⟩ := hend hdel
        obtain ⟨rfl, rfl, _⟩ := hret
        rw [List.append_nil]
        refine .deleted n' r ⟨events, hparse⟩ ha' hd' (Classical.byContradiction fun hp => ?_) hs'
        obtain ⟨e, he⟩ := hr.mpr hp
        cases he

/-- A message that ended in an exception leaves the rest of the list behind. -/
theorem raised_iff {queue : SqsQueue} {message : Message} {rest : List Message} {e : Exc}
    (h : MessageEnd room queue message calls (.error e)) :
    Handled room queue (message :: rest) calls ↔ Isolated room (message :: rest) calls := by
  cases h with
  | unparsed _ hparse hcalls =>
    subst hcalls
    refine ⟨fun h => (by cases h.deletions), fun h => ?_⟩
    obtain ⟨events, hok⟩ := h.parses message List.mem_cons_self
    rw [hparse] at hok
    cases hok
  | stopped _ hd hs =>
    refine ⟨fun h => ?_, fun h => ?_⟩
    · have := h.deletions
      rw [hd] at this
      cases this
    · obtain ⟨call, hc, hstop⟩ := hs
      exact absurd hstop (h.stops call hc)
  | refused _ r hparse ha hd hr hs =>
    cases rest with
    | nil =>
      refine ⟨fun _ => ⟨?_, hs, fun d hd => (by cases hd)⟩, fun _ => ⟨by simp [ha], by simp [hd]⟩⟩
      intro m hm
      cases List.mem_singleton.mp hm
      exact hparse
    | cons next rest =>
      refine ⟨fun h => ?_, fun h => ?_⟩
      · have := h.deletions
        rw [hd] at this
        cases this
      · exact absurd (h.deletes (messageHandle queue message, r) (by simp [hd])) hr

/-- A message that was deleted leaves the rest of the list as it would be alone. -/
theorem deleted_iff {queue : SqsQueue} {message : Message} {rest : List Message}
    {first later : List SqsCall} {n : Nat}
    (h : MessageEnd room queue message first (.ok n))
    (ih : Handled room queue rest later ↔ Isolated room rest later) :
    Handled room queue (message :: rest) (first ++ later) ↔ Isolated room (message :: rest) (first ++ later) := by
  cases h with
  | deleted _ r hparse ha hd hr hs =>
    have hdel : deletions (first ++ later) = (messageHandle queue message, r) :: deletions later := by
      rw [deletions_append, hd]; rfl
    have hhandled : Handled room queue (message :: rest) (first ++ later) ↔ Handled room queue rest later := by
      constructor
      · intro h
        have ha' := h.attempts
        have hd' := h.deletions
        rw [attempts_append, ha, List.flatMap_cons] at ha'
        rw [hdel] at hd'
        exact ⟨List.append_cancel_left ha', (List.cons.inj hd').2⟩
      · intro h
        refine ⟨?_, ?_⟩
        · rw [attempts_append, ha, h.attempts, List.flatMap_cons]
        · rw [hdel, List.map_cons, List.map_cons, h.deletions]
    rw [hhandled, ih]
    constructor
    · intro h
      refine ⟨?_, ?_, ?_⟩
      · intro m hm
        rcases List.mem_cons.mp hm with rfl | hm
        · exact hparse
        · exact h.parses m hm
      · intro call hc
        rcases List.mem_append.mp hc with hc | hc
        · exact hs call hc
        · exact h.stops call hc
      · intro d hd'
        rw [hdel] at hd'
        cases rest with
        | nil => cases hd'
        | cons next rest =>
          rcases List.mem_cons.mp hd' with rfl | hd'
          · exact hr
          · exact h.deletes d hd'
    · intro h
      refine ⟨fun m hm => h.parses m (List.mem_cons_of_mem _ hm), fun call hc => h.stops call
        (List.mem_append_right _ hc), ?_⟩
      intro d hd'
      refine h.deletes d ?_
      rw [hdel]
      cases rest with
      | nil => cases hd'
      | cons next rest => exact List.mem_cons_of_mem _ hd'

theorem runs_handleMessages {queue : SqsQueue} {messages : List Message} {n : Nat} {x : Except Exc Nat}
    (h : Runs room pid (handleMessages room queue messages n) s calls x s') :
    Handled room queue messages calls ↔ Isolated room messages calls := by
  induction messages generalizing s calls n with
  | nil =>
    obtain ⟨rfl, rfl, _⟩ := h
    exact ⟨fun _ => ⟨fun _ h => (by cases h), fun _ h => (by cases h), fun _ h => (by cases h)⟩, fun _ => ⟨rfl, rfl⟩⟩
  | cons message rest ih =>
    rcases exec_bind (fun _ => trivial) h with ⟨e, rfl, hp⟩ | ⟨n', s₁, first, later, rfl, hp, hrest⟩
    · exact raised_iff (runs_handleMessage hp)
    · exact deleted_iff (runs_handleMessage hp) (ih hrest)

end Event

/-- Whatever others do meanwhile, `poll_single_queue` handles all the messages it received
    exactly when every body parses, no failure recorder raises, nothing is cancelled, and
    no deletion but the last message's raises anything but SQSError. -/
theorem handled_iff {room pid : Nat} {queue : SqsQueue} {messages : List Message} {s s' : Store}
    {calls : List SqsCall} {x : Except Exc Nat}
    (h : Runs room pid (pollSingleQueue room queue) s (⟨SqsOp.receiveMessages queue, .ok messages⟩ :: calls) x s') :
    Handled room queue messages calls ↔ Isolated room messages calls := by
  obtain ⟨s₁, r, s₂, rest, _, _, hcalls, hk⟩ := h
  cases hcalls
  exact runs_handleMessages hk

/-! ### A receive in which one event fails -/

/-- Three that announce the object `k`, and a text that is no JSON. -/
def fourMessages : List Message :=
  [⟨some "a", some "ha", (putMessage "").body⟩, ⟨some "b", some "hb", some "no JSON"⟩,
    ⟨some "c", some "hc", (putMessage "").body⟩, ⟨some "d", some "hd", (putMessage "").body⟩]

/-- All is well but the INSERT for the third message. -/
def thirdFails (s : Store) : (o : SqsOp) → Except Exc o.Ret
  | .createEvent _ "c" _ => .error (.exception "connection is closed")
  | o => s.answer 0 [theQueue] fourMessages o

/-- An answer that neither stops the loop nor lets an exception of `delete_message` through. -/
def Calm (o : SqsOp) (r : Except Exc o.Ret) : Prop := ¬ Stops ⟨o, r⟩ ∧ ∀ d, deletion ⟨o, r⟩ = some d → Passes d.2

theorem thirdFails_calm (s : Store) (o : SqsOp) : Calm o (thirdFails s o) := by
  unfold thirdFails
  split
  · exact ⟨fun h => h.elim (fun h => nomatch h.1) nofun, nofun⟩
  · cases o with
    | deleteMessage queue handle => exact ⟨fun h => h.elim (fun h => nomatch h.1) nofun, by rintro _ ⟨⟩; trivial⟩
    | recordFailed => exact ⟨fun h => h.elim (fun h => nomatch h.2.choose_spec) nofun, nofun⟩
    | _ => exact ⟨fun h => h.elim (fun h => nomatch h.1) nofun, nofun⟩

theorem played_four : (solo (pollers 9) 0 thirdFails (pollSingleQueue 9 theQueue) idleStore).map
    (fun run => run.2.2.events.map fun row => (row.messageId, row.status)) =
      some [("d", .completed), ("c", .failed), ("a", .completed)] := by
  decide +kernel

set_option maxRecDepth 50000 in
theorem parses_four : ∀ message ∈ fourMessages, ∃ events, parseS3Events 9 (message.body.getD "") = .ok events := by
  have hput : ∃ events, parseS3Events 9 ((putMessage "").body.getD "") = .ok events := ⟨_, rfl⟩
  intro message hm
  simp only [fourMessages, List.mem_cons, List.not_mem_nil, or_false] at hm
  rcases hm with rfl | rfl | rfl | rfl
  · exact hput
  · exact ⟨[], rfl⟩
  · exact hput
  · exact hput

/-- The event of the third message fails and is recorded; all four messages are handled. -/
theorem handled_four : ∃ calls x s', Runs 9 0 (pollSingleQueue 9 theQueue) idleStore
      (⟨SqsOp.receiveMessages theQueue, .ok fourMessages⟩ :: calls) x s' ∧
    s'.events.map (fun row => (row.messageId, row.status)) = [("d", .completed), ("c", .failed), ("a", .completed)] ∧
    Handled 9 theQueue fourMessages calls := by
  obtain ⟨⟨all, x, s'⟩, hsolo, hrows⟩ := Option.map_eq_some_iff.mp played_four
  have hcalm : ∀ call ∈ all, Calm call.op call.ans := solo_answers thirdFails_calm hsolo
  have hrun := solo_exec (R := anyway) (fun _ => trivial) hsolo
  obtain ⟨_, _, h⟩ := Option.bind_eq_some_iff.mp hsolo
  obtain ⟨⟨calls, _⟩, _, he⟩ := Option.map_eq_some_iff.mp h
  cases he
  refine ⟨calls, x, s', hrun, hrows, (handled_iff hrun).mpr ⟨parses_four, fun call hc => ?_, fun d hd => ?_⟩⟩
  · exact (hcalm call (List.mem_cons_of_mem _ hc)).1
  · obtain ⟨call, hc, hd⟩ := List.mem_filterMap.mp (List.mem_of_mem_take hd)
    exact (hcalm call (List.mem_cons_of_mem _ hc)).2 d hd

/-! ### A body of another shape -/

def brokenMessage : Message := ⟨some "m", some "h", some "[]"⟩

theorem runs_broken : Runs 9 0 (pollSingleQueue 9 theQueue) idleStore
    [⟨SqsOp.receiveMessages theQueue, .ok [brokenMessage]⟩]
    (.error (.exception "'list' object has no attribute 'get'"))
    { idleStore with deliveries := [delivery theQueue brokenMessage] } := by
  refine ⟨idleStore, .ok [brokenMessage], _, [], trivial, rfl, rfl, rfl, rfl, trivial⟩

/-- A message whose body is an empty JSON array is received and never deleted. -/
theorem poisoned : ∃ x s', Runs 9 0 (pollSingleQueue 9 theQueue) idleStore
    [⟨SqsOp.receiveMessages theQueue, .ok [brokenMessage]⟩] x s' ∧
    ¬ Handled 9 theQueue [brokenMessage] [] := by
  refine ⟨_, _, runs_broken, fun h => ?_⟩
  cases h.deletions

end Connect.Sqs
