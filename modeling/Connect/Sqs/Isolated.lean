/-
  Connect.Sqs.Isolated — a sweep over the rows of sqs_queues (`poll_sqs_queues`,
  services/sqs_poller.py): what goes wrong with one queue stays with it.

  `Board` puts the rows of sqs_queues beside the store. A visit of a queue has four ends
  (`Visit`): its owner has no usable credentials, no client comes of them, its poll raises,
  or its poll returns. `sweep_isolated`: a sweep that was given the lock visits every
  active queue once, in the order of the list; then a queue shows no error exactly when
  its poll returned, only such a queue has a new `last_poll_at`, the counts and the errors
  that are reported are those of the visits, and the worker does not hold the lock.

  It holds whatever is raised in the visits, as long as nothing is cancelled, the writes
  to sqs_queues and the calls on the lock are answered, and nobody else writes these
  columns of the listed rows during the sweep.
-/

import Connect.Sqs.Poison

namespace Connect.Sqs

open Await

/-! ## The rows of sqs_queues -/

structure QueueRow where
  queue : SqsQueue
  /-- `status = 'active'`. -/
  active : Bool
  createdAt : Nat
  errorMessage : Option String
  lastPollAt : Option Nat

def idsOf (rows : List QueueRow) : List Nat := rows.map (·.queue.id)

def patchRow (id : Nat) (f : QueueRow → QueueRow) (row : QueueRow) : QueueRow :=
  if row.queue.id = id then { f row with queue := row.queue } else row

theorem idsOf_patch (id : Nat) (f : QueueRow → QueueRow) (rows : List QueueRow) :
    idsOf (rows.map (patchRow id f)) = idsOf rows := by
  simp only [idsOf, List.map_map]
  refine List.map_congr_left fun row _ => ?_
  simp only [Function.comp_apply, patchRow]
  split <;> rfl

structure Board where
  store : Store
  rows : List QueueRow
  /-- The ids are the primary key. -/
  keyed : (idsOf rows).Nodup

def Board.row (b : Board) (id : Nat) : Option QueueRow := b.rows.find? (·.queue.id == id)

def Board.update (b : Board) (id : Nat) (f : QueueRow → QueueRow) : Board :=
  ⟨b.store, b.rows.map (patchRow id f), by rw [idsOf_patch]; exact b.keyed⟩

/-- The answers of `list_active`: the active rows by `created_at`, ties in any order. -/
def Board.lists (b : Board) (queues : List SqsQueue) : Bool :=
  queues.isPerm ((b.rows.filter (·.active)).map (·.queue)) &&
    decide ((queues.map fun queue => (b.row queue.id).map (·.createdAt)).Pairwise fun x y => x.getD 0 ≤ y.getD 0)

def Board.exec (pid : Nat) (b : Board) : (o : SqsOp) → Except Exc o.Ret → Option Board
  | .listActive, .ok (queues : List SqsQueue) => if b.lists queues then some b else none
  | .setError id errorMessage, .ok (found : Bool) =>
    if found = (b.row id).isSome then
      some (b.update id fun row => { row with errorMessage := some errorMessage }) else none
  | .markPolled id, .ok (found : Bool) =>
    if found = (b.row id).isSome then
      some (b.update id fun row => { row with errorMessage := none, lastPollAt := some b.store.now })
    else none
  | o, r => (b.store.exec pid o r).map fun store => { b with store }

/-- The workers over the store and the rows. -/
abbrev boards (room : Nat) : System sqsSig Exc PollResult where
  State := Board
  Env := Nat
  Task := Unit
  init b := (pollers room).init b.store
  exec := Board.exec
  env b ms := some { b with store := { b.store with now := b.store.now + ms } }
  starts _ _ := true
  code pid _ := pollSqsQueues room pid

/-! ## What a row shows -/

structure Shown where
  errorMessage : Option String
  lastPollAt : Option Nat
  deriving DecidableEq, Repr

def Board.shown (b : Board) (id : Nat) : Option Shown := (b.row id).map fun row => ⟨row.errorMessage, row.lastPollAt⟩

theorem row_update (b : Board) (id i : Nat) (f : QueueRow → QueueRow) :
    (b.update id f).row i = (b.row i).map (patchRow id f) := by
  simp only [Board.row, Board.update, List.find?_map]
  congr 2
  funext row
  simp only [Function.comp_apply, patchRow]
  split <;> rfl

theorem row_id {b : Board} {id : Nat} {row : QueueRow} (h : b.row id = some row) : row.queue.id = id := by
  simpa using List.find?_some h

theorem shown_update_ne {b : Board} {id i : Nat} (f : QueueRow → QueueRow) (h : i ≠ id) :
    (b.update id f).shown i = b.shown i := by
  simp only [Board.shown, row_update, Option.map_map]
  cases hrow : b.row i with
  | none => rfl
  | some row => simp [patchRow, row_id hrow, h]

theorem shown_update_same {b : Board} {id : Nat} (f : QueueRow → QueueRow) {row : QueueRow}
    (h : b.row id = some row) :
    (b.update id f).shown id = some ⟨(f row).errorMessage, (f row).lastPollAt⟩ := by
  simp [Board.shown, row_update, h, patchRow, row_id h]

/-- Nobody else writes what the rows show or gives this worker the lock. -/
structure Leaves (pid : Nat) (b b' : Board) : Prop where
  shown : ∀ id, (b.shown id).isSome = true → b'.shown id = b.shown id
  now : b.store.now ≤ b'.store.now
  lock : b.store.holder ≠ some pid → b'.store.holder ≠ some pid

theorem Leaves.refl {pid : Nat} (b : Board) : Leaves pid b b := ⟨fun _ _ => rfl, Nat.le_refl _, id⟩

/-- The rows there are show what they showed, some time later. -/
structure Still (b b' : Board) : Prop where
  shown : ∀ id, (b.shown id).isSome = true → b'.shown id = b.shown id
  now : b.store.now ≤ b'.store.now

theorem Still.refl (b : Board) : Still b b := ⟨fun _ _ => rfl, Nat.le_refl _⟩

theorem Still.trans {a b c : Board} (h : Still a b) (h' : Still b c) : Still a c where
  shown id hid := by
    have hb := h.shown id hid
    rw [h'.shown id (by rw [hb]; exact hid), hb]
  now := Nat.le_trans h.now h'.now

theorem Leaves.still {pid : Nat} {b b' : Board} (h : Leaves pid b b') : Still b b' := ⟨h.shown, h.now⟩

/-! ## Visits -/

abbrev Clients := List (Option String × String)

inductive Visited where
  | skipped (errorMessage : String)
  | raised (e : Exc)
  | polled (n : Nat)
  deriving DecidableEq, Repr

/-- What the row shows after the visit. -/
def Visited.error : Visited → Option String
  | .skipped errorMessage => some errorMessage
  | .raised e => some (pyTake 200 e.text)
  | .polled _ => none

def Visited.count : Visited → Nat
  | .polled n => n
  | .skipped _ | .raised _ => 0

/-- The entry of "errors". -/
def Visited.line (queue : SqsQueue) : Visited → Option String
  | .raised e => some s!"{queue.name}: {pyTake 200 e.text}"
  | .skipped _ | .polled _ => none

theorem error_none_iff (v : Visited) : v.error = none ↔ ∃ n, v = .polled n := by
  cases v <;> simp [Visited.error]

def Sweep.after (w : Sweep) (queue : SqsQueue) (v : Visited) (clients : Clients) : Sweep :=
  ⟨clients, w.totalEvents + v.count, w.errors ++ (v.line queue).toList⟩

section Visits

variable {room pid : Nat} {queue : SqsQueue} {clients clients' : Clients} {b b' : Board}
    {calls : List SqsCall} {α : Type}

abbrev BoardExec (room pid : Nat) (p : SqsProg α) (b : Board) (calls : List SqsCall) (x : Except Exc α)
    (b' : Board) : Prop :=
  Exec (boards room) (Leaves pid) pid p b calls x b'

/-- The calls of a visit, and what it comes to. -/
inductive Visit (room pid : Nat) (queue : SqsQueue) (clients : Clients) : List SqsCall → Visited → Clients → Prop
  | skipped {b b' : Board} {calls : List SqsCall} {errorMessage : String} {found : Bool} :
      BoardExec room pid (sqsClient queue clients) b
        (calls ++ [⟨.setError queue.id errorMessage, .ok found⟩]) (.ok none) b' →
      Visit room pid queue clients (calls ++ [⟨.setError queue.id errorMessage, .ok found⟩])
        (.skipped errorMessage) clients
  | noClient {b b' : Board} {calls : List SqsCall} {e : Exc} {found : Bool} :
      BoardExec room pid (sqsClient queue clients) b calls (.error e) b' →
      Visit room pid queue clients (calls ++ [⟨.setError queue.id (pyTake 200 e.text), .ok found⟩])
        (.raised e) clients
  | raised {b b₁ b₂ : Board} {calls polls : List SqsCall} {clients' : Clients} {e : Exc} {found : Bool} :
      BoardExec room pid (sqsClient queue clients) b calls (.ok (some clients')) b₁ →
      BoardExec room pid (pollSingleQueue room queue) b₁ polls (.error e) b₂ →
      Visit room pid queue clients (calls ++ polls ++ [⟨.setError queue.id (pyTake 200 e.text), .ok found⟩])
        (.raised e) clients'
  | polled {b b₁ b₂ : Board} {calls polls : List SqsCall} {clients' : Clients} {n : Nat} {found : Bool} :
      BoardExec room pid (sqsClient queue clients) b calls (.ok (some clients')) b₁ →
      BoardExec room pid (pollSingleQueue room queue) b₁ polls (.ok n) b₂ →
      Visit room pid queue clients (calls ++ polls ++ [⟨.markPolled queue.id, .ok found⟩]) (.polled n) clients'

/-- One visit for each queue, in their order. -/
inductive Visits (room pid : Nat) : List SqsQueue → Clients → List SqsCall → List Visited → Prop
  | nil (clients : Clients) : Visits room pid [] clients [] []
  | cons {queue : SqsQueue} {rest : List SqsQueue} {clients clients' : Clients} {calls more : List SqsCall}
      {v : Visited} {vs : List Visited} :
      Visit room pid queue clients calls v clients' → Visits room pid rest clients' more vs →
      Visits room pid (queue :: rest) clients (calls ++ more) (v :: vs)

/-- The answers in a sweep of these queues: no cancellation, and sqs_queues and the lock answer. -/
def Granted (queues : List SqsQueue) : (o : SqsOp) → Except Exc o.Ret → Prop
  | .acquirePollLock _, r => r = .ok true
  | .listActive, r => r = .ok queues
  | .setError _ _, r | .markPolled _, r | .releasePollLock _, r => ∃ v, r = .ok v
  | _, r => r ≠ .error .cancelled

theorem granted_calm {queues : List SqsQueue} {o : SqsOp} {r : Except Exc o.Ret} (h : Granted queues o r) :
    r ≠ .error .cancelled := by
  cases o with
  | acquirePollLock | listActive =>
    rw [show r = _ from h]
    nofun
  | setError | markPolled | releasePollLock =>
    obtain ⟨_, rfl⟩ := h
    nofun
  | _ => exact h

/-! ### The parts of a visit -/

theorem boards_store {o : SqsOp} {r : Except Exc o.Ret} (h : Board.exec pid b o r = some b')
    (ho : PollOp o ∨ (∃ w, o = .releasePollLock w) ∨ ∃ w, o = .acquirePollLock w) :
    b'.rows = b.rows ∧ Did pid b.store o r b'.store := by
  have hstore : (b.store.exec pid o r).map (fun store => { b with store }) = some b' := by
    rcases ho with ho | ⟨w, rfl⟩ | ⟨w, rfl⟩
    · cases o <;> first | exact h | exact ho.elim
    · exact h
    · exact h
  obtain ⟨store, hx, rfl⟩ := Option.map_eq_some_iff.mp hstore
  exact ⟨rfl, exec_did hx⟩

theorem did_now {s s' : Store} {o : SqsOp} {r : Except Exc o.Ret} (h : Did pid s o r s') : s'.now = s.now := by
  cases h <;> rfl

theorem poll_still {p : SqsProg α} {x : Except Exc α} (hp : p.Uses PollOp)
    (h : BoardExec room pid p b calls x b') : Still b b' := by
  refine exec_keeps (I := Still b) (fun a c ha hac => ha.trans hac.still) (fun a c o r ho ha hx => ?_) hp h (.refl b)
  obtain ⟨hrows, hd⟩ := boards_store hx (Or.inl ho)
  refine ha.trans ⟨fun id _ => ?_, Nat.le_of_eq (did_now hd).symm⟩
  simp only [Board.shown, Board.row, hrows]

/-- What a visit does to the rows. -/
structure Effect (id : Nat) (v : Visited) (b b' : Board) : Prop where
  others : ∀ i, i ≠ id → (b.shown i).isSome = true → b'.shown i = b.shown i
  own : ∀ old, b.shown id = some old → ∃ new, b'.shown id = some new ∧ new.errorMessage = v.error ∧
    ((∃ n, v = .polled n) → ∃ t, new.lastPollAt = some t ∧ b.store.now ≤ t) ∧
    ((¬ ∃ n, v = .polled n) → new.lastPollAt = old.lastPollAt)
  now : b.store.now ≤ b'.store.now

theorem Effect.before {id : Nat} {v : Visited} {a b c : Board} (h : Still a b) (h' : Effect id v b c) :
    Effect id v a c where
  others i hi hsome := by
    have hb := h.shown i hsome
    rw [h'.others i hi (by rw [hb]; exact hsome), hb]
  own old hold := by
    have hb := h.shown id (by rw [hold]; rfl)
    obtain ⟨new, hnew, herror, hpolled, hkept⟩ := h'.own old (hb.trans hold)
    refine ⟨new, hnew, herror, fun hv => ?_, hkept⟩
    obtain ⟨t, ht, hle⟩ := hpolled hv
    exact ⟨t, ht, Nat.le_trans h.now hle⟩
  now := Nat.le_trans h.now h'.now

theorem Effect.later {id : Nat} {v : Visited} {a b c : Board} (h : Effect id v a b) (h' : Still b c) :
    Effect id v a c where
  others i hi hsome := by
    have hb := h.others i hi hsome
    rw [h'.shown i (by rw [hb]; exact hsome), hb]
  own old hold := by
    obtain ⟨new, hnew, hrest⟩ := h.own old hold
    exact ⟨new, (h'.shown id (by rw [hnew]; rfl)).trans hnew, hrest⟩
  now := Nat.le_trans h.now h'.now

/-- An UPDATE of the row. -/
theorem update_effect {id : Nat} {v : Visited} {f : QueueRow → QueueRow} (b : Board)
    (hf : ∀ row, (f row).errorMessage = v.error ∧ ((∃ n, v = .polled n) → (f row).lastPollAt = some b.store.now) ∧
      ((¬ ∃ n, v = .polled n) → (f row).lastPollAt = row.lastPollAt)) : Effect id v b (b.update id f) where
  others i hi _ := shown_update_ne f hi
  own old hold := by
    obtain ⟨row, hrow, rfl⟩ := Option.map_eq_some_iff.mp hold
    obtain ⟨herror, hpolled, hkept⟩ := hf row
    exact ⟨_, shown_update_same f hrow, herror, fun hv => ⟨_, hpolled hv, Nat.le_refl _⟩, hkept⟩
  now := Nat.le_refl _

theorem setError_effect {queues : List SqsQueue} {errorMessage : String} {x : Except Exc Unit} {v : Visited}
    (hv : v.error = some errorMessage) (h : BoardExec room pid (setError queue errorMessage) b calls x b')
    (hok : ∀ call ∈ calls, Granted queues call.op call.ans) :
    x = .ok () ∧ (∃ found : Bool, calls = [⟨.setError queue.id errorMessage, .ok found⟩]) ∧
    Effect queue.id v b b' := by
  obtain ⟨b₁, r, b₂, rest, hr, hx, rfl, hk⟩ := h
  obtain ⟨(found : Bool), rfl⟩ := hok _ List.mem_cons_self
  obtain ⟨rfl, rfl, hr'⟩ := hk
  have hx : (if found = (b₁.row queue.id).isSome then
      some (b₁.update queue.id fun row => { row with errorMessage := some errorMessage }) else none) = some b₂ := hx
  split at hx
  · cases hx
    have hnot : ¬ ∃ n, v = .polled n := fun hp => by
      rw [(error_none_iff v).mpr hp] at hv
      cases hv
    have heffect : Effect queue.id v b₁
        (b₁.update queue.id fun row => { row with errorMessage := some errorMessage }) :=
      update_effect b₁ fun row => ⟨hv.symm, fun hp => absurd hp hnot, fun _ => rfl⟩
    exact ⟨rfl, ⟨found, rfl⟩, (heffect.before hr.still).later hr'.still⟩
  · cases hx

theorem bare_setError (queue : SqsQueue) (errorMessage : String) : Bare (setError queue errorMessage) :=
  .bind (.await _) fun _ => trivial

theorem bare_sqsClient (queue : SqsQueue) (clients : Clients) : Bare (sqsClient queue clients) := by
  refine .bind (.await _) fun (creds : Option SqsCreds) => ?_
  cases creds with
  | none => exact .bind (bare_setError _ _) fun _ => trivial
  | some creds =>
    dsimp only
    split
    · exact .bind (bare_setError _ _) fun _ => trivial
    · split
      · trivial
      · exact .bind (.await _) fun _ => trivial

/-- The visit ends with the row's error. -/
theorem setError_ret {queues : List SqsQueue} {errorMessage : String} {v : Visited} {y : α} {x : Except Exc α}
    (hv : v.error = some errorMessage)
    (h : BoardExec room pid ((setError queue errorMessage).bind fun _ => .ret y) b calls x b')
    (hok : ∀ call ∈ calls, Granted queues call.op call.ans) :
    x = .ok y ∧ (∃ found : Bool, calls = [⟨.setError queue.id errorMessage, .ok found⟩]) ∧
    Effect queue.id v b b' := by
  rcases exec_bind Leaves.refl h with ⟨e, rfl, hset⟩ | ⟨_, _, first, rest, rfl, hset, rfl, rfl, hr⟩
  · obtain ⟨he, _⟩ := setError_effect hv hset hok
    cases he
  · rw [List.append_nil] at hok ⊢
    obtain ⟨_, hcalls, heffect⟩ := setError_effect hv hset hok
    exact ⟨rfl, hcalls, heffect.later hr.still⟩

/-- The client: it raises, or the row says why there is none, or there is one. -/
theorem sqsClient_ends {queues : List SqsQueue} {x : Except Exc (Option Clients)}
    (h : BoardExec room pid (sqsClient queue clients) b calls x b')
    (hok : ∀ call ∈ calls, Granted queues call.op call.ans) :
    (∃ e, x = .error e ∧ e.isException = true ∧ Still b b') ∨
      (∃ errorMessage first, ∃ found : Bool, x = .ok none ∧
        calls = first ++ [⟨.setError queue.id errorMessage, .ok found⟩] ∧
        Effect queue.id (.skipped errorMessage) b b') ∨
      ∃ clients', x = .ok (some clients') ∧ Still b b' := by
  have hcalm : x ≠ .error .cancelled := fun hx => by
    obtain ⟨call, hc, hcancel⟩ := ((bare_sqsClient queue clients).prompt.ends h).mp hx
    exact granted_calm (hok call hc) hcancel
  obtain ⟨a, r, c, rest, hr, hx, rfl, hk⟩ := h
  have hac : Still b c := by
    obtain ⟨hrows, hd⟩ := boards_store (o := .getSqsCredentials queue.userId) hx (Or.inl trivial)
    refine hr.still.trans ⟨fun id _ => ?_, Nat.le_of_eq (did_now hd).symm⟩
    simp only [Board.shown, Board.row, hrows]
  have hok := fun call hc => hok call (List.mem_cons_of_mem _ hc)
  have hskips : ∀ errorMessage, BoardExec room pid
      ((setError queue errorMessage).bind fun _ => .ret none) c rest x b' →
      ∃ errorMessage first, ∃ found : Bool, x = .ok none ∧
        ⟨.getSqsCredentials queue.userId, r⟩ :: rest =
          first ++ [(⟨.setError queue.id errorMessage, .ok found⟩ : SqsCall)] ∧
        Effect queue.id (.skipped errorMessage) b b' := by
    intro errorMessage h
    obtain ⟨hx, ⟨found, rfl⟩, heffect⟩ := setError_ret (v := .skipped errorMessage) rfl h hok
    exact ⟨errorMessage, [⟨.getSqsCredentials queue.userId, r⟩], found, hx, rfl, heffect.before hac⟩
  rcases r with e | (_ | creds)
  · obtain ⟨rfl, rfl, hr'⟩ := hk
    exact Or.inl ⟨e, rfl, isException_iff.mpr fun he => hcalm (by rw [he]), hac.trans hr'.still⟩
  · exact Or.inr (Or.inl (hskips _ hk))
  · have hk : BoardExec room pid (if creds.accessKey = "" ∨ creds.secretKey = "" then
          (setError queue "Invalid SQS credentials").bind fun _ => .ret none
        else if (queue.userId, queueRegion queue creds) ∈ clients then .ret (some clients)
        else (await (.newSqsService creds.accessKey creds.secretKey (queueRegion queue creds))).bind fun _ =>
          .ret (some (clients ++ [(queue.userId, queueRegion queue creds)]))) c rest x b' := hk
    split at hk
    · exact Or.inr (Or.inl (hskips _ hk))
    · split at hk
      · obtain ⟨rfl, rfl, hr'⟩ := hk
        exact Or.inr (Or.inr ⟨clients, rfl, hac.trans hr'.still⟩)
      · have hnew : Still c b' := poll_still (by exact .bind (.await trivial) fun _ => trivial) hk
        rcases exec_bind Leaves.refl hk with ⟨e, rfl, _⟩ | ⟨_, _, _, _, _, _, _, rfl, _⟩
        · exact Or.inl ⟨e, rfl, isException_iff.mpr fun he => hcalm (by rw [he]), hac.trans hnew⟩
        · exact Or.inr (Or.inr ⟨_, rfl, hac.trans hnew⟩)

theorem prompt_pollSingleQueue (room : Nat) (queue : SqsQueue) : Prompt .cancelled (pollSingleQueue room queue) := by
  have hfailed : ∀ event messageId n e, e ≠ .cancelled →
      Prompt .cancelled (eventFailed event queue messageId n e) := by
    intro event messageId n e he
    rw [eventFailed, if_pos (isException_iff.mpr he)]
    exact .bind (.await _) fun _ => trivial
  have hevents : ∀ messageId events n, Prompt .cancelled (handleEvents queue messageId events n) := by
    intro messageId events
    induction events with
    | nil => exact fun _ => trivial
    | cons event rest ih =>
      intro n
      unfold handleEvents
      split
      · refine .bind (.catching ?_ (hfailed event messageId n) rfl) fun n => ih n
        exact .bind (prompt_processS3Event event queue messageId) fun _ => trivial
      · exact ih n
  have hdelete : ∀ receiptHandle, Prompt .cancelled (deleteMessage queue receiptHandle) := by
    intro receiptHandle
    refine .catching (.bind (.await _) fun _ => trivial) (fun e he => ?_) rfl
    cases e with
    | sqsError => trivial
    | exception | cancelled => exact he
  have hmessages : ∀ (messages : List Message) n, Prompt .cancelled (handleMessages room queue messages n) := by
    intro messages
    induction messages with
    | nil => exact fun _ => trivial
    | cons message rest ih =>
      intro n
      refine .bind ?_ fun n => ih n
      unfold handleMessage parseS3Events
      split
      · rename_i e he
        intro hc
        subst hc
        split at he <;> cases he
      · exact .bind (hevents _ _ _) fun n => .bind (hdelete _) fun _ => trivial
  exact .bind (.await _) fun messages => hmessages messages 0

/-! ### One visit -/

theorem queueFailed_raises {queues : List SqsQueue} {w : Sweep} {e : Exc} {x : Except Exc Sweep}
    (he : e.isException = true)
    (h : BoardExec room pid (queueFailed queue w e) b calls x b')
    (hok : ∀ call ∈ calls, Granted queues call.op call.ans) :
    x = .ok (w.after queue (.raised e) w.sqsClients) ∧
      (∃ found : Bool, calls = [⟨.setError queue.id (pyTake 200 e.text), .ok found⟩]) ∧
      Effect queue.id (.raised e) b b' := by
  rw [queueFailed, if_pos he] at h
  obtain ⟨rfl, hcalls, heffect⟩ := setError_ret (v := .raised e) rfl h hok
  exact ⟨by simp [Sweep.after, Visited.count, Visited.line], hcalls, heffect⟩

theorem markPolled_polls {queues : List SqsQueue} {w : Sweep} {n : Nat} {x : Except Exc Sweep}
    (h : BoardExec room pid (markPolled queue w) b calls x b')
    (hok : ∀ call ∈ calls, Granted queues call.op call.ans) :
    x = .ok w ∧ (∃ found : Bool, calls = [⟨.markPolled queue.id, .ok found⟩]) ∧ Effect queue.id (.polled n) b b' := by
  obtain ⟨b₁, r, b₂, rest, hr, hx, rfl, hk⟩ := h
  obtain ⟨(found : Bool), rfl⟩ := hok _ List.mem_cons_self
  obtain ⟨rfl, rfl, hr'⟩ := hk
  have hx : (if found = (b₁.row queue.id).isSome then
      some (b₁.update queue.id fun row =>
        { row with errorMessage := none, lastPollAt := some b₁.store.now }) else none) = some b₂ := hx
  split at hx
  · cases hx
    have heffect : Effect queue.id (.polled n) b₁
        (b₁.update queue.id fun row => { row with errorMessage := none, lastPollAt := some b₁.store.now }) :=
      update_effect b₁ fun row => ⟨rfl, fun _ => rfl, fun hp => absurd ⟨n, rfl⟩ hp⟩
    exact ⟨rfl, ⟨found, rfl⟩, (heffect.before hr.still).later hr'.still⟩
  · cases hx

/-- One queue: whatever is raised in it, the sweep goes on. -/
theorem pollQueue_visit {queues : List SqsQueue} {w : Sweep} {x : Except Exc Sweep}
    (h : BoardExec room pid (pollQueue room queue w) b calls x b')
    (hok : ∀ call ∈ calls, Granted queues call.op call.ans) :
    ∃ v clients', x = .ok (w.after queue v clients') ∧ Visit room pid queue w.sqsClients calls v clients' ∧
    Effect queue.id v b b' := by
  rcases exec_bind Leaves.refl h with ⟨e, _, hp⟩ | ⟨r, b₁, first, rest, rfl, hp, hgo⟩
  · obtain ⟨_, he, _⟩ := exec_attempt hp
    cases he
  obtain ⟨_, hy, hp⟩ := exec_attempt hp
  cases hy
  obtain ⟨hfirst, hrest⟩ := List.forall_mem_append.mp hok
  rcases sqsClient_ends hp hfirst with
    ⟨e, rfl, he, hstill⟩ | ⟨errorMessage, calls, found, rfl, rfl, heffect⟩ | ⟨clients', rfl, hstill⟩
  · obtain ⟨hx, ⟨found, rfl⟩, heffect⟩ := queueFailed_raises he hgo hrest
    exact ⟨_, _, hx, .noClient hp, heffect.before hstill⟩
  · have hret : BoardExec room pid (.ret w) b₁ rest x b' := hgo
    obtain ⟨rfl, rfl, hr⟩ := hret
    rw [List.append_nil]
    exact ⟨_, _, by simp [Sweep.after, Visited.count, Visited.line], .skipped hp, heffect.later hr.still⟩
  · rcases exec_bind Leaves.refl hgo with ⟨e, _, hpoll⟩ | ⟨r, b₂, polls, last, rfl, hpoll, hend⟩
    · obtain ⟨_, he, _⟩ := exec_attempt hpoll
      cases he
    obtain ⟨_, hy, hpoll⟩ := exec_attempt hpoll
    cases hy
    obtain ⟨hpolls, hlast⟩ := List.forall_mem_append.mp hrest
    have hstill₂ := hstill.trans (poll_still (uses_pollSingleQueue room queue) hpoll)
    rw [← List.append_assoc]
    cases r with
    | error e =>
      have he : e.isException = true := isException_iff.mpr fun hc => by
        obtain ⟨call, hc, hcancel⟩ := ((prompt_pollSingleQueue room queue).ends hpoll).mp (by rw [hc])
        exact granted_calm (hpolls call hc) hcancel
      obtain ⟨hx, ⟨found, rfl⟩, heffect⟩ := queueFailed_raises he hend hlast
      exact ⟨_, _, hx, .raised hp hpoll, heffect.before hstill₂⟩
    | ok n =>
      obtain ⟨hx, ⟨found, rfl⟩, heffect⟩ := markPolled_polls (n := n) hend hlast
      exact ⟨.polled n, _, by rw [hx]; simp [Sweep.after, Visited.count,
        Visited.line], .polled hp hpoll, heffect.before hstill₂⟩

/-! ### All visits -/

def counted (vs : List Visited) : Nat := vs.foldr (fun v n => v.count + n) 0

def reported (queues : List SqsQueue) (vs : List Visited) : List String :=
  (List.zipWith (fun queue v => (Visited.line queue v).toList) queues vs).flatten

/-- Each row of the list shows its own visit, and every other row what it showed before. -/
structure Swept (queues : List SqsQueue) (vs : List Visited) (b b' : Board) : Prop where
  length : vs.length = queues.length
  own : ∀ queue v, (queue, v) ∈ queues.zip vs → ∀ old, b.shown queue.id = some old →
    ∃ new, b'.shown queue.id = some new ∧
    (new.errorMessage = none ↔ ∃ n, v = .polled n) ∧
    ((∃ n, v = .polled n) → ∃ t, new.lastPollAt = some t ∧ b.store.now ≤ t) ∧
    ((¬ ∃ n, v = .polled n) → new.lastPollAt = old.lastPollAt)
  others : ∀ i, i ∉ queues.map (·.id) → (b.shown i).isSome = true → b'.shown i = b.shown i
  now : b.store.now ≤ b'.store.now

theorem Swept.cons {queue : SqsQueue} {rest : List SqsQueue} {v : Visited} {vs : List Visited} {a b c : Board}
    (hnew : queue.id ∉ rest.map (·.id)) (h : Effect queue.id v a b) (h' : Swept rest vs b c) :
    Swept (queue :: rest) (v :: vs) a c where
  length := congrArg (· + 1) h'.length
  own q u hmem old hold := by
    rcases List.mem_cons.mp hmem with he | hmem
    · cases he
      obtain ⟨new, hnew', herror, hpolled, hkept⟩ := h.own old hold
      exact ⟨new, (h'.others queue.id hnew (by rw [hnew']; rfl)).trans hnew',
        by rw [herror]; exact error_none_iff v, hpolled, hkept⟩
    · have hne : q.id ≠ queue.id := fun he => hnew (he ▸ List.mem_map_of_mem (List.of_mem_zip hmem).1)
      have hb := h.others q.id hne (by rw [hold]; rfl)
      obtain ⟨new, hnew', herror, hpolled, hkept⟩ := h'.own q u hmem old (hb.trans hold)
      refine ⟨new, hnew', herror, fun hv => ?_, hkept⟩
      obtain ⟨t, ht, hle⟩ := hpolled hv
      exact ⟨t, ht, Nat.le_trans h.now hle⟩
  others i hi hsome := by
    simp only [List.map_cons, List.mem_cons, not_or] at hi
    have hb := h.others i hi.1 hsome
    rw [h'.others i hi.2 (by rw [hb]; exact hsome), hb]
  now := Nat.le_trans h.now h'.now

theorem pollQueues_visits {queues all : List SqsQueue} {w : Sweep} {x : Except Exc Sweep}
    (hnd : (queues.map (·.id)).Nodup)
    (h : BoardExec room pid (pollQueues room queues w) b calls x b')
    (hok : ∀ call ∈ calls, Granted all call.op call.ans) :
    ∃ vs clients', x = .ok ⟨clients', w.totalEvents + counted vs, w.errors ++ reported queues vs⟩ ∧
      Visits room pid queues w.sqsClients calls vs ∧ Swept queues vs b b' := by
  induction queues generalizing b calls w with
  | nil =>
    obtain ⟨rfl, rfl, hr⟩ := h
    refine ⟨[], w.sqsClients, by simp [counted,
      reported], .nil _, rfl, fun _ _ hmem => by simp at hmem, fun i _ => hr.shown i, hr.now⟩
  | cons queue rest ih =>
    rw [List.map_cons, List.nodup_cons] at hnd
    rcases exec_bind Leaves.refl h with ⟨e, rfl, hp⟩ | ⟨w', b₁, first, more, rfl, hp, h⟩
    · obtain ⟨_, _, hx, _⟩ := pollQueue_visit hp hok
      cases hx
    obtain ⟨hfirst, hmore⟩ := List.forall_mem_append.mp hok
    obtain ⟨v, clients₁, hx, hvisit, heffect⟩ := pollQueue_visit hp hfirst
    cases hx
    obtain ⟨vs, clients₂, hx, hvisits, hswept⟩ := ih hnd.2 h hmore
    refine ⟨v :: vs, clients₂, ?_, .cons hvisit hvisits, hswept.cons hnd.1 heffect⟩
    rw [hx]
    simp [Sweep.after, counted, reported, Nat.add_assoc]

theorem lists_nodup {queues : List SqsQueue} (h : b.lists queues = true) : (queues.map (·.id)).Nodup := by
  have hperm : queues.Perm ((b.rows.filter (·.active)).map (·.queue)) :=
    List.isPerm_iff.mp (Bool.and_eq_true_iff.mp h).1
  rw [(hperm.map (·.id)).nodup_iff, List.map_map]
  exact b.keyed.sublist (List.filter_sublist.map _)

theorem Swept.later {queues : List SqsQueue} {vs : List Visited} {a c : Board} (h : Swept queues vs a b)
    (h' : Still b c) :
    Swept queues vs a c where
  length := h.length
  own queue v hmem old hold := by
    obtain ⟨new, hnew, hrest⟩ := h.own queue v hmem old hold
    exact ⟨new, (h'.shown queue.id (by rw [hnew]; rfl)).trans hnew, hrest⟩
  others i hi hsome := by
    have hb := h.others i hi hsome
    rw [h'.shown i (by rw [hb]; exact hsome), hb]
  now := Nat.le_trans h.now h'.now

/-- The sweep from the list on. -/
theorem sweep_visits {queues : List SqsQueue} {x : Except Exc PollResult}
    (h : BoardExec room pid (sweep room) b calls x b')
    (hok : ∀ call ∈ calls, Granted queues call.op call.ans) :
    ∃ listed vs body, listed.lists queues = true ∧ calls = ⟨.listActive, .ok queues⟩ :: body ∧
    Visits room pid queues [] body vs ∧
      Swept queues vs listed b' ∧ x = .ok (.ok queues.length (counted vs) (reported queues vs)) := by
  obtain ⟨listed, r, b₁, rest, _, hx, rfl, hk⟩ := h
  obtain rfl : r = .ok queues := hok _ List.mem_cons_self
  have hlists : (if listed.lists queues then some listed else none) = some b₁ := hx
  split at hlists
  · rename_i hl
    cases hlists
    refine ⟨listed, ?_⟩
    cases queues with
    | nil =>
      obtain ⟨rfl, rfl, hr⟩ := hk
      exact ⟨[], [], hl, rfl, .nil [], ⟨rfl, fun _ _ hmem => by simp at hmem, fun i _ => hr.shown i, hr.now⟩, rfl⟩
    | cons queue more =>
      have hok := fun call hc => hok call (List.mem_cons_of_mem _ hc)
      have hgo : BoardExec room pid ((pollQueues room (queue :: more) ⟨[], 0, []⟩).bind fun w =>
        .ret (.ok (queue :: more).length w.totalEvents w.errors)) listed rest x b' := hk
      rcases exec_bind Leaves.refl hgo with ⟨e, rfl, hp⟩ | ⟨w, b₂, first, last, rfl, hp, hret⟩
      · obtain ⟨_, _, he, _⟩ := pollQueues_visits (lists_nodup hl) hp hok
        cases he
      · obtain ⟨rfl, rfl, hr⟩ := hret
        rw [List.append_nil] at hok ⊢
        obtain ⟨vs, _, he, hvisits, hswept⟩ := pollQueues_visits (lists_nodup hl) hp hok
        cases he
        exact ⟨vs, first, hl, rfl, hvisits, hswept.later hr.still, by simp⟩
  · cases hlists

theorem release_lets_go {queues : List SqsQueue} {x : Except Exc Unit}
    (h : BoardExec room pid (do let _ ← releasePollLock pid; return ()) b calls x b')
    (hok : ∀ call ∈ calls, Granted queues call.op call.ans) :
    x = .ok () ∧ (∃ released : Bool, calls = [⟨.releasePollLock pid, .ok released⟩]) ∧ Still b b' ∧
    b'.store.holder ≠ some pid := by
  obtain ⟨b₁, r, b₂, rest, hr, hx, rfl, hk⟩ := h
  obtain ⟨(released : Bool), rfl⟩ := hok _ List.mem_cons_self
  obtain ⟨rfl, rfl, hr'⟩ := hk
  obtain ⟨hrows, hd⟩ := boards_store (o := .releasePollLock pid) hx (Or.inr (Or.inl ⟨pid, rfl⟩))
  have hfree : b₂.store.holder ≠ some pid := by
    generalize hs : b₂.store = store at hd
    cases hd with
    | released => nofun
    | notOwned hne => exact hne
    | answered ho => cases ho
  have hstill : Still b₁ b₂ :=
    ⟨fun id _ => by simp only [Board.shown, Board.row, hrows], Nat.le_of_eq (did_now hd).symm⟩
  exact ⟨rfl, ⟨released, rfl⟩, (hr.still.trans hstill).trans hr'.still, hr'.lock hfree⟩

/-- A sweep that has the lock visits the listed queues one after the other; each shows its own
    visit, and the lock is let go. -/
theorem sweep_isolated {queues : List SqsQueue} {x : Except Exc PollResult}
    (h : BoardExec room pid (pollSqsQueues room pid) b calls x b')
    (hok : ∀ call ∈ calls, Granted queues call.op call.ans) :
    ∃ listed vs body, ∃ released : Bool, listed.lists queues = true ∧
      calls = ⟨.acquirePollLock pid, .ok true⟩ :: ⟨.listActive, .ok queues⟩ :: body ++
      [⟨.releasePollLock pid, .ok released⟩] ∧
      Visits room pid queues [] body vs ∧ Swept queues vs listed b' ∧
      x = .ok (.ok queues.length (counted vs) (reported queues vs)) ∧ b'.store.holder ≠ some pid := by
  obtain ⟨a, r, b₁, rest, _, _, rfl, hk⟩ := h
  obtain rfl : r = .ok true := hok _ List.mem_cons_self
  have hok := fun call hc => hok call (List.mem_cons_of_mem _ hc)
  obtain ⟨y, b₂, b₃, first, last, rfl, hsweep, hr, hend⟩ := exec_finally Leaves.refl hk
  obtain ⟨hfirst, hlast⟩ := List.forall_mem_append.mp hok
  obtain ⟨listed, vs, body, hlists, rfl, hvisits, hswept, rfl⟩ := sweep_visits hsweep hfirst
  rcases hend with ⟨rfl, hrelease⟩ | ⟨e, rfl, hrelease⟩
  · obtain ⟨_, ⟨released, rfl⟩, hstill, hfree⟩ := release_lets_go hrelease hlast
    exact ⟨listed, vs, body, released, hlists, rfl, hvisits, (hswept.later hstill).later hr.still, rfl, hr.lock hfree⟩
  · obtain ⟨he, _⟩ := release_lets_go hrelease hlast
    cases he

end Visits

/-! ### A sweep -/

def queueNamed (id : Nat) (name : String) : SqsQueue :=
  ⟨id, "https://sqs/q", name, "us-east-1", "datastore", "filespace", "", none⟩

/-- The first queue showed no error so far, the second one did. -/
def twoRows : Board :=
  ⟨idleStore, [⟨queueNamed 1 "a", true, 0, none, some 7⟩, ⟨queueNamed 2 "b", true, 1, some "boom", none⟩], by decide⟩

/-- The secret of the first owner is not readable, the second queue is empty. -/
def twoVisits : List SqsCall :=
  [⟨SqsOp.acquirePollLock 0, .ok true⟩, ⟨SqsOp.listActive, .ok [queueNamed 1 "a", queueNamed 2 "b"]⟩,
    ⟨SqsOp.getSqsCredentials none, .error (.exception "token")⟩, ⟨SqsOp.setError 1 "token", .ok true⟩,
    ⟨SqsOp.getSqsCredentials none, .ok (some ⟨"key", "secret", ""⟩)⟩,
    ⟨SqsOp.newSqsService "key" "secret" "us-east-1", .ok ()⟩,
    ⟨SqsOp.receiveMessages (queueNamed 2 "b"), .ok []⟩, ⟨SqsOp.markPolled 2, .ok true⟩,
    ⟨SqsOp.releasePollLock 0, .ok true⟩]

theorem two_swept : ∃ b', BoardExec 9 0 (pollSqsQueues 9 0) twoRows twoVisits (.ok (.ok 2 0 ["a: token"])) b' := by
  exact ⟨_, _, _, _, _, .refl _, rfl, rfl, _, _, _, _, .refl _, rfl, rfl, _, _, _, _, .refl _, rfl, rfl, _,
    _, _, _, .refl _, rfl, rfl,
    _, _, _, _, .refl _, rfl, rfl, _, _, _, _, .refl _, rfl, rfl, _, _, _, _, .refl _, rfl, rfl, _, _, _, _,
    .refl _, rfl, rfl, _, _, _, _, .refl _, rfl, rfl, rfl, rfl, .refl _⟩

theorem two_granted : ∀ call ∈ twoVisits, Granted [queueNamed 1 "a", queueNamed 2 "b"] call.op call.ans := by
  intro call hc
  simp only [twoVisits, List.mem_cons, List.not_mem_nil, or_false] at hc
  rcases hc with rfl | rfl | rfl | rfl | rfl | rfl | rfl | rfl | rfl
  all_goals first | exact rfl | exact ⟨_, rfl⟩ | exact fun he => nomatch he

theorem sweep_isolated_two : ∃ b' listed vs body, ∃ released :
    Bool, listed.lists [queueNamed 1 "a", queueNamed 2 "b"] = true ∧
    twoVisits = ⟨.acquirePollLock 0, .ok true⟩ :: ⟨.listActive, .ok [queueNamed 1 "a", queueNamed 2 "b"]⟩ :: body ++
      [⟨.releasePollLock 0, .ok released⟩] ∧
    Visits 9 0 [queueNamed 1 "a", queueNamed 2 "b"] [] body vs ∧
    Swept [queueNamed 1 "a", queueNamed 2 "b"] vs listed b' ∧
    (.ok (.ok 2 0 ["a: token"]) : Except Exc PollResult) =
      .ok (.ok 2 (counted vs) (reported [queueNamed 1 "a", queueNamed 2 "b"] vs)) ∧ b'.store.holder ≠ some 0 := by
  obtain ⟨b', h⟩ := two_swept
  exact ⟨b', sweep_isolated h two_granted⟩

end Connect.Sqs
