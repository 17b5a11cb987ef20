/-
  Connect.Data.Isolation — one user's calls against the other users' rows.

  Whatever the tables hold and whatever a user calls (`isolated`): the rows returned are
  the user's own, the rows of everybody else are the same afterwards, and both the reply
  and what becomes of the user's rows are as they would be if the tables held no other
  row. So nothing that a user reads or counts, over any number of calls, depends on the
  rows of another.

  Each operation is scoped by a condition of its own; `Table.select_restrict` and the
  lemmas beside it turn "the condition asks for the owner" into the three parts.
-/

import Connect.Data.Repositories

namespace Connect.Data

open Sql

/-! ## Whose rows -/

/-- An event is `u`'s when its queue is. -/
def ownsEvent (queues : List SqsQueue) (u : Option Uuid) (e : SqsEvent) : Bool :=
  queues.any fun q => q.id == e.queueId && q.userId == u

/-- The tables with the rows of `u` and no others. -/
def Tables.own (s : Tables) (u : Option Uuid) : Tables where
  users := s.users
  importJobs := s.importJobs.restrict (·.userId == u)
  datastoreCredentials := s.datastoreCredentials.restrict (·.userId == u)
  sqsCredentials := s.sqsCredentials.restrict (·.userId == u)
  sqsQueues := s.sqsQueues.restrict (·.userId == u)
  sqsEvents := s.sqsEvents.restrict (ownsEvent s.sqsQueues.rows u)
  userSettings := s.userSettings.restrict (some ·.userId == u)
  activityLogs := s.activityLogs.restrict (·.userId == u)

structure Rows where
  importJobs : List Job
  datastoreCredentials : List DatastoreCredentials
  sqsCredentials : List SqsCredentials
  sqsQueues : List SqsQueue
  sqsEvents : List SqsEvent
  userSettings : List UserSetting
  activityLogs : List ActivityLog

/-- Every row that is not `u`'s. -/
def Tables.others (s : Tables) (u : Option Uuid) : Rows where
  importJobs := s.importJobs.select fun r => !(r.userId == u)
  datastoreCredentials := s.datastoreCredentials.select fun r => !(r.userId == u)
  sqsCredentials := s.sqsCredentials.select fun r => !(r.userId == u)
  sqsQueues := s.sqsQueues.select fun q => !(q.userId == u)
  sqsEvents := s.sqsEvents.select fun e => !ownsEvent s.sqsQueues.rows u e
  userSettings := s.userSettings.select fun r => !(some r.userId == u)
  activityLogs := s.activityLogs.select fun r => !(r.userId == u)

/-- The rows of a reply are `u`'s, events through their queue and a setting by its row. -/
def Reply.Owned (s : Tables) (u : Option Uuid) : Reply → Prop
  | .jobs rows => ∀ r ∈ rows, r.userId = u
  | .datastores rows => ∀ r ∈ rows, r.userId = u
  | .sqsCredentials rows => ∀ r ∈ rows, r.userId = u
  | .queues rows => ∀ q ∈ rows, q.userId = u
  | .events rows => ∀ x ∈ rows, x.2 ∈ s.sqsQueues.rows ∧ x.1.queueId = x.2.id ∧ x.2.userId = u
  | .setting value => ∀ v ∈ value, ∃ r ∈ s.userSettings.rows, some r.userId = u ∧ r.value = v
  | .logs rows => ∀ r ∈ rows, r.userId = u
  | .raised _ | .bool _ | .count _ | .done => True

/-- What a call may do, made by `u`. -/
structure Isolated (u : Option Uuid) (s : Tables) (f : Tables → Reply × Tables) : Prop where
  owned : (f s).1.Owned s u
  others : (f s).2.others u = s.others u
  own : f (s.own u) = ((f s).1, (f s).2.own u)

theorem Isolated.read {u : Option Uuid} {s : Tables} {f : Tables → Reply} (owned : (f s).Owned s u)
    (own : f (s.own u) = f s) : Isolated u s fun t => (f t, t) :=
  ⟨owned, rfl, by rw [own]⟩

theorem Isolated.raise (u : Option Uuid) (s : Tables) (e : SqlError) : Isolated u s fun t => (.raised e, t) :=
  .read trivial rfl

/-- Only what a call does to `s` and to `u`'s part of it counts. -/
theorem Isolated.of_eq {u : Option Uuid} {s : Tables} {f g : Tables → Reply × Tables} (hg : Isolated u s g)
    (h : f s = g s) (h' : f (s.own u) = g (s.own u)) : Isolated u s f where
  owned := h ▸ hg.owned
  others := h ▸ hg.others
  own := by rw [h', h, hg.own]

theorem scope {u column : Option Uuid} (h : ownedBy u column = true) : (column == u) = true := by
  rwa [ownedBy_eq] at h

theorem scope_right {p : Bool} {u column : Option Uuid} (h : (p && ownedBy u column) = true) : (column == u) = true :=
  scope (Bool.and_eq_true _ _ ▸ h).2

theorem scope_left {p : Bool} {u column : Option Uuid} (h : (ownedBy u column && p) = true) : (column == u) = true :=
  scope (Bool.and_eq_true _ _ ▸ h).1

theorem mem_scalarOneOrNone {α : Type} {rows : List α} {r : Option α} (h : scalarOneOrNone rows = .ok r) :
    ∀ a ∈ r, a ∈ rows := by
  unfold scalarOneOrNone at h
  split at h
  · cases h
    simp
  · cases h
    simp
  · cases h

theorem reply_owned {α : Type} {s : Tables} {u : Option Uuid} {f : α → Reply} {x : Except SqlError α}
    (h : ∀ a, x = .ok a → (f a).Owned s u) : (reply f x).Owned s u := by
  cases x with
  | error e => trivial
  | ok a => exact h a rfl

/-! ## Jobs -/

section Jobs

variable (u : Option Uuid) (s : Tables)

/-- A statement that changes import_jobs. -/
theorem Isolated.jobs {f : Tables → Reply} {w : Serial Job.id → Serial Job.id} (owned : (f s).Owned s u)
    (hf : f (s.own u) = f s) (hw : w (s.importJobs.restrict (·.userId == u)) = (w s.importJobs).restrict
      (·.userId == u))
    (hout : ((w s.importJobs).select fun r => !(r.userId == u)) = s.importJobs.select fun r => !(r.userId == u)) :
    Isolated u s fun t => (f t, { t with importJobs := w t.importJobs }) where
  owned := owned
  others := congrArg (fun rows => { s.others u with importJobs := rows }) hout
  own := Prod.ext hf (congrArg (fun t => { s.own u with importJobs := t }) hw)

theorem listJobs_isolated (limit offset : Nat) :
    Isolated u s fun t => (.jobs (JobRepository.listForUser t u limit offset), t) := by
  refine .read ?_ ?_
  · intro r hr
    have hm := mem_orderByDesc.mp (mem_of_mem_page hr)
    exact ownedBy_iff.mp (List.mem_filter.mp hm).2
  · have h := s.importJobs.select_restrict fun r => @scope u r.userId
    exact congrArg (fun rows => Reply.jobs (page limit offset (orderByDesc Job.createdAt rows))) h

theorem cancelJob_isolated (jobId : Int) :
    Isolated u s fun t => (JobRepository.cancelJob t jobId u).map .bool id := by
  have hp : ∀ r : Job, _ → _ := fun r => @scope_right ((r.id : Int) == jobId) u r.userId
  let cancelled := fun r : Job => { r with status := "cancelled" }
  refine .jobs u s (w := fun t => t.update _ cancelled fun _ => rfl) ?_ ?_ ?_ ?_
  · trivial
  · exact congrArg (fun n => Reply.bool (decide (0 < n))) (s.importJobs.count_restrict hp)
  · exact s.importJobs.update_restrict (f := cancelled) (fun _ => rfl) fun _ => rfl
  · exact s.importJobs.update_outside (f := cancelled) (fun _ => rfl) hp fun _ => rfl

theorem deleteJob_isolated (jobId : Int) :
    Isolated u s fun t => (JobRepository.deleteForUser t jobId u).map .bool id := by
  have hp : ∀ r : Job, _ → _ := fun r => @scope_right ((r.id : Int) == jobId) u r.userId
  refine .jobs u s (w := fun t => t.delete _) ?_ ?_ (s.importJobs.delete_restrict _ _) ?_
  · trivial
  · exact congrArg (fun n => Reply.bool (decide (0 < n))) (s.importJobs.count_restrict hp)
  · exact s.importJobs.delete_outside hp

theorem clearCompletedJobs_isolated :
    Isolated u s fun t => (JobRepository.clearCompletedForUser t u).map .count id := by
  have hp : ∀ r : Job, _ → _ := fun r => @scope_left (JobRepository.terminal.contains r.status) u r.userId
  refine .jobs u s (w := fun t => t.delete _) ?_ ?_ (s.importJobs.delete_restrict _ _) ?_
  · trivial
  · exact congrArg Reply.count (s.importJobs.count_restrict hp)
  · exact s.importJobs.delete_outside hp

end Jobs

/-! ## Credentials -/

section Credentials

variable (u : Option Uuid) (s : Tables)

/-- A statement that changes datastore_credentials. -/
theorem Isolated.datastores {f : Tables → Reply} {w : CredentialsTable → CredentialsTable} (owned : (f s).Owned s u)
    (hf : f (s.own u) = f s)
    (hw : w (s.datastoreCredentials.restrict (·.userId == u)) = (w s.datastoreCredentials).restrict (·.userId == u))
    (hout : ((w s.datastoreCredentials).select fun r => !(r.userId == u)) =
      s.datastoreCredentials.select fun r => !(r.userId == u)) :
    Isolated u s fun t => (f t, { t with datastoreCredentials := w t.datastoreCredentials }) where
  owned := owned
  others := congrArg (fun rows => { s.others u with datastoreCredentials := rows }) hout
  own := Prod.ext hf (congrArg (fun t => { s.own u with datastoreCredentials := t }) hw)

theorem listDatastores_isolated :
    Isolated u s fun t => (.datastores (DatastoreCredentialsRepository.listForUser t u), t) := by
  refine .read ?_ ?_
  · intro r hr
    exact ownedBy_iff.mp (List.mem_filter.mp hr).2
  · exact congrArg Reply.datastores (s.datastoreCredentials.select_restrict fun r => @scope u r.userId)

theorem getDatastore_isolated (datastoreId : String) :
    Isolated u s fun t =>
      (reply (fun r => .datastores r.toList)
        (DatastoreCredentialsRepository.getForDatastoreUser t datastoreId u), t) := by
  refine .read (reply_owned fun r hr => ?_) ?_
  · intro row hrow
    have hm := mem_scalarOneOrNone hr row (by simpa using hrow)
    exact beq_iff_eq.mp (scope_right (List.mem_filter.mp hm).2)
  · have h := s.datastoreCredentials.select_restrict fun r => @scope_right (r.datastoreId == datastoreId) u r.userId
    exact congrArg (fun rows => reply (fun r => Reply.datastores r.toList) (scalarOneOrNone rows)) h

theorem deleteDatastore_isolated (datastoreId : String) :
    Isolated u s fun t => (DatastoreCredentialsRepository.deleteForDatastoreUser t datastoreId u).map .bool id := by
  have hp : ∀ r : DatastoreCredentials, _ → _ := fun r => @scope_right (r.datastoreId == datastoreId) u r.userId
  refine .datastores u s (w := fun t => t.delete _) ?_ ?_ ?_ (s.datastoreCredentials.delete_outside hp)
  · trivial
  · exact congrArg (fun n => Reply.bool (decide (0 < n))) (s.datastoreCredentials.count_restrict hp)
  · exact CredentialsTable.ext (filter_comm _ _ _) rfl

theorem conflict_own {v : CredentialValues} (r : DatastoreCredentials) (h : v.conflict u r = true) :
    (r.userId == u) = true := beq_iff_eq.mpr (CredentialValues.conflict_iff.mp h).2.1

theorem find_conflict_own (v : CredentialValues) :
    (s.own u).datastoreCredentials.rows.find? (v.conflict u) = s.datastoreCredentials.rows.find? (v.conflict u) := by
  show (List.filter _ _).find? _ = _
  rw [List.find?_filter]
  congr 1
  funext r
  cases h : v.conflict u r with
  | true => simp [conflict_own u r h]
  | false => simp

theorem update_conflict_isolated (v : CredentialValues) {r : DatastoreCredentials} (hr : v.conflict u r = true) :
    Isolated u s fun t =>
      (.datastores [v.set r],
        { t with
          datastoreCredentials := (t.datastoreCredentials.update (v.conflict u) v.set v.set_id v.set_uq).draw }) := by
  refine .datastores u s (w := fun t => (t.update (v.conflict u) v.set v.set_id v.set_uq).draw) ?_ rfl ?_ ?_
  · intro row hrow
    rw [List.mem_singleton.mp hrow]
    exact (CredentialValues.conflict_iff.mp hr).2.1
  · exact CredentialsTable.ext (filter_update (f := v.set) (fun _ => rfl) s.datastoreCredentials.rows).symm rfl
  · exact s.datastoreCredentials.update_outside (f := v.set) v.set_id (conflict_own u) fun _ => rfl

theorem draw_isolated :
    Isolated u s fun t => (.raised .integrityError, { t with datastoreCredentials := t.datastoreCredentials.draw }) :=
  .datastores u s (w := CredentialsTable.draw) trivial rfl rfl rfl

theorem insert_isolated (now : Int) (v : CredentialValues)
    (hn : ∀ r ∈ s.datastoreCredentials.rows, v.conflict u r = false) :
    Isolated u s fun t =>
      (.datastores [v.row u now s.datastoreCredentials.next],
        { t with datastoreCredentials := t.datastoreCredentials.insert (v.row u now) (v.row_id u now) }) := by
  have hnew := fun r hr => CredentialValues.no_conflict (hn r hr) now s.datastoreCredentials.next
  have hrows := CredentialsTable.insert_rows (v.row_id u now) hnew
  have hrows' := CredentialsTable.insert_rows (t := s.datastoreCredentials.restrict (·.userId == u)) (v.row_id u now)
    fun r hr => hnew r (List.mem_filter.mp hr).1
  have hown : ((v.row u now s.datastoreCredentials.next).userId == u) = true := beq_self_eq_true u
  refine .datastores u s (w := fun t => t.insert (v.row u now) (v.row_id u now)) ?_ rfl ?_ ?_
  · intro row hrow
    rw [List.mem_singleton.mp hrow]
    rfl
  · refine CredentialsTable.ext ?_ ?_
    · rw [hrows']
      show _ = List.filter _ (CredentialsTable.insert _ _ _).rows
      rw [hrows, List.filter_append, List.filter_cons, if_pos hown]
      rfl
    · have h := CredentialsTable.insert_next s.datastoreCredentials (v.row u now) (v.row_id u now)
      exact (CredentialsTable.insert_next _ _ _).trans h.symm
  · show List.filter _ (CredentialsTable.insert _ _ _).rows = _
    rw [hrows, List.filter_append]
    simp [hown, Table.select]

theorem upsertDatastore_isolated (now : Int) (v : CredentialValues) :
    Isolated u s fun t => (DatastoreCredentialsRepository.upsert now t v u).map
      (reply fun r => .datastores [r]) id := by
  have hnext : (s.own u).datastoreCredentials.next = s.datastoreCredentials.next := rfl
  have husers : (s.own u).userExists u = s.userExists u := rfl
  by_cases hlim : maxInteger < s.datastoreCredentials.next
  · refine .of_eq (.raise u s .sequenceLimit) ?_ ?_
    · simp [DatastoreCredentialsRepository.upsert, hlim, reply]
    · simp [DatastoreCredentialsRepository.upsert, hnext, hlim, reply]
  cases hf : s.datastoreCredentials.rows.find? (v.conflict u) with
  | some r =>
    refine .of_eq (update_conflict_isolated u s v (List.find?_some hf)) ?_ ?_
    · simp [DatastoreCredentialsRepository.upsert, hlim, hf, reply]
    · simp [DatastoreCredentialsRepository.upsert, hnext, hlim, find_conflict_own, hf, reply]
  | none =>
    by_cases hu : s.userExists u = true
    · refine .of_eq (insert_isolated u s now v fun r hr => by simpa using List.find?_eq_none.mp hf r hr) ?_ ?_
      · simp [DatastoreCredentialsRepository.upsert, hlim, hf, hu, reply]
      · simp [DatastoreCredentialsRepository.upsert, hnext, hlim, find_conflict_own, hf, husers, hu, reply]
    · refine .of_eq (draw_isolated u s) ?_ ?_
      · simp [DatastoreCredentialsRepository.upsert, hlim, hf, hu, reply]
      · simp [DatastoreCredentialsRepository.upsert, hnext, hlim, find_conflict_own, hf, husers, hu, reply]

/-- A statement that changes sqs_credentials. -/
theorem Isolated.sqsCredentials {f : Tables → Reply} {w : Serial SqsCredentials.id → Serial SqsCredentials.id}
    (owned : (f s).Owned s u) (hf : f (s.own u) = f s)
    (hw : w (s.sqsCredentials.restrict (·.userId == u)) = (w s.sqsCredentials).restrict (·.userId == u))
    (hout : ((w s.sqsCredentials).select fun r => !(r.userId == u)) =
      s.sqsCredentials.select fun r => !(r.userId == u)) :
    Isolated u s fun t => (f t, { t with sqsCredentials := w t.sqsCredentials }) where
  owned := owned
  others := congrArg (fun rows => { s.others u with sqsCredentials := rows }) hout
  own := Prod.ext hf (congrArg (fun t => { s.own u with sqsCredentials := t }) hw)

theorem listSqsCredentials_own :
    SqsCredentialsRepository.listForUser (s.own u) u = SqsCredentialsRepository.listForUser s u :=
  s.sqsCredentials.select_restrict fun r => @scope u r.userId

theorem listSqsCredentials_owned : ∀ r ∈ SqsCredentialsRepository.listForUser s u, r.userId = u :=
  fun _ hr => ownedBy_iff.mp (List.mem_filter.mp hr).2

theorem listSqsCredentials_isolated :
    Isolated u s fun t => (.sqsCredentials (SqsCredentialsRepository.listForUser t u), t) :=
  .read (listSqsCredentials_owned u s) (congrArg Reply.sqsCredentials (listSqsCredentials_own u s))

theorem getSqsCredentials_isolated :
    Isolated u s fun t => (.sqsCredentials (SqsCredentialsRepository.getForUser t u).toList, t) := by
  refine .read ?_ ?_
  · intro r hr
    exact listSqsCredentials_owned u s r (List.mem_of_head? (Option.mem_toList.mp hr))
  · exact congrArg (fun rows => Reply.sqsCredentials rows.head?.toList) (listSqsCredentials_own u s)

theorem deleteSqsCredentials_isolated :
    Isolated u s fun t => (SqsCredentialsRepository.deleteForUser t u).map .count id := by
  have hp : ∀ r : SqsCredentials, _ → _ := fun r => @scope u r.userId
  refine .sqsCredentials u s (w := fun t => t.delete _) ?_ ?_ (s.sqsCredentials.delete_restrict _ _) ?_
  · trivial
  · exact congrArg Reply.count (s.sqsCredentials.count_restrict hp)
  · exact s.sqsCredentials.delete_outside hp

theorem upsertSqsCredentials_isolated (now : Int) (accessKey : String) (secretKeyEncrypted : Bytes)
    (region : String) :
    Isolated u s fun t =>
      (SqsCredentialsRepository.upsertForUser now t accessKey secretKeyEncrypted region u).map
        (reply fun r => .sqsCredentials [r]) id := by
  have hnext : (s.own u).sqsCredentials.next = s.sqsCredentials.next := rfl
  have husers : (s.own u).userExists u = s.userExists u := rfl
  by_cases hlim : maxInteger < s.sqsCredentials.next
  · refine .of_eq (.raise u s .sequenceLimit) ?_ ?_
    · simp [SqsCredentialsRepository.upsertForUser, hlim, reply]
    · simp [SqsCredentialsRepository.upsertForUser, hnext, hlim, reply]
  by_cases hu : s.userExists u = true
  · let new := fun id => SqsCredentials.mk id accessKey secretKeyEncrypted region u now
    let mine := fun r : SqsCredentials => ownedBy u r.userId
    have hnew : (fun r : SqsCredentials => r.userId == u) (new s.sqsCredentials.next) = true := beq_self_eq_true u
    have hg : Isolated u s fun t => (.sqsCredentials [new s.sqsCredentials.next],
        { t with sqsCredentials := (t.sqsCredentials.delete mine).insert new fun _ => rfl }) := by
      refine .sqsCredentials u s (w := fun t => (t.delete mine).insert new fun _ => rfl) ?_ rfl ?_ ?_
      · intro r hr
        rw [List.mem_singleton.mp hr]
      · rw [Serial.delete_restrict]
        exact Serial.insert_restrict _ new (fun _ => rfl) hnew
      · refine (Serial.insert_outside (s.sqsCredentials.delete mine) new (fun _ => rfl) hnew).trans ?_
        exact s.sqsCredentials.delete_outside fun r => @scope u r.userId
    refine .of_eq hg ?_ ?_
    · simp only [SqsCredentialsRepository.upsertForUser, hlim, hu, if_true, if_false]
      rfl
    · simp only [SqsCredentialsRepository.upsertForUser, hnext, husers, hlim, hu, if_true, if_false]
      rfl
  · have hg : Isolated u s fun t => (.raised .integrityError, { t with sqsCredentials := t.sqsCredentials.draw }) :=
      .sqsCredentials u s (w := Serial.draw) trivial rfl rfl rfl
    refine .of_eq hg ?_ ?_
    · simp [SqsCredentialsRepository.upsertForUser, hlim, hu, reply]
    · simp [SqsCredentialsRepository.upsertForUser, hnext, husers, hlim, hu, reply]

end Credentials

/-! ## Queues and their events -/

section Queues

variable (u : Option Uuid) (s : Tables)

/-- A statement that changes sqs_queues, sqs_events or both. -/
theorem Isolated.queues {f : Tables → Reply} {w : Tables → Table SqsQueue.id} {v : Tables → Table SqsEvent.id}
    (owned : (f s).Owned s u) (hf : f (s.own u) = f s) (hw : w (s.own u) = (w s).restrict (·.userId == u))
    (hv : v (s.own u) = (v s).restrict (ownsEvent (w s).rows u))
    (hwo : ((w s).select fun q => !(q.userId == u)) = s.sqsQueues.select fun q => !(q.userId == u))
    (hvo : ((v s).select fun e => !ownsEvent (w s).rows u e) =
      s.sqsEvents.select fun e => !ownsEvent s.sqsQueues.rows u e) :
    Isolated u s fun t => (f t, { t with sqsQueues := w t, sqsEvents := v t }) where
  owned := owned
  others := by
    have h := congr (congrArg (fun qs es => { s.others u with sqsQueues := qs, sqsEvents := es }) hwo) hvo
    exact h
  own := by
    have h := congr (congrArg (fun qs es => { s.own u with sqsQueues := qs, sqsEvents := es }) hw) hv
    exact Prod.ext hf h

theorem listQueues_isolated : Isolated u s fun t => (.queues (SqsQueueRepository.listForUser t u), t) := by
  refine .read ?_ ?_
  · intro q hq
    exact ownedBy_iff.mp (List.mem_filter.mp (mem_orderByDesc.mp hq)).2
  · have h := s.sqsQueues.select_restrict fun q => @scope u q.userId
    exact congrArg (fun rows => Reply.queues (orderByDesc SqsQueue.createdAt rows)) h

theorem getQueue_isolated (queueId : Uuid) :
    Isolated u s fun t => (reply (fun q => .queues q.toList) (SqsQueueRepository.getForUser t queueId u), t) := by
  refine .read (reply_owned fun r hr => ?_) ?_
  · intro q hq
    have hm := mem_scalarOneOrNone hr q (Option.mem_toList.mp hq)
    exact beq_iff_eq.mp (scope_right (List.mem_filter.mp hm).2)
  · have h := s.sqsQueues.select_restrict fun q => @scope_right (q.id == queueId) u q.userId
    exact congrArg (fun rows => reply (fun q => Reply.queues q.toList) (scalarOneOrNone rows)) h

theorem ownsEvent_update {p : SqsQueue → Bool} {f : SqsQueue → SqsQueue} (hid : ∀ q, (f q).id = q.id)
    (hu : ∀ q, (f q).userId = q.userId) (queues : List SqsQueue) :
    ownsEvent (queues.map fun q => if p q then f q else q) u = ownsEvent queues u := by
  funext e
  simp only [ownsEvent, List.any_map]
  congr 1
  funext q
  simp only [Function.comp]
  split
  · rw [hid, hu]
  · rfl

theorem updateQueueStatus_isolated (queueId : Uuid) (status : String) (errorMessage : Option String) :
    Isolated u s fun t =>
      (SqsQueueRepository.updateStatusForUser t queueId u status errorMessage).map .bool id := by
  have hp : ∀ q : SqsQueue, _ → _ := fun q => @scope_right (q.id == queueId) u q.userId
  let values := fun q : SqsQueue => { q with status, errorMessage := errorMessage.or q.errorMessage }
  -- Neither the id nor the owner of a queue changes, so no event changes hands.
  have hev := ownsEvent_update u (p := fun q => q.id == queueId && ownedBy u q.userId) (f := values) (fun _ => rfl)
    (fun _ => rfl) s.sqsQueues.rows
  refine .queues u s (w := fun t => t.sqsQueues.update _ values fun _ => rfl)
    (v := Tables.sqsEvents) ?_ ?_ ?_ ?_ ?_ ?_
  · trivial
  · exact congrArg (fun n => Reply.bool (decide (0 < n))) (s.sqsQueues.count_restrict hp)
  · exact s.sqsQueues.update_restrict (f := values) (fun _ => rfl) fun _ => rfl
  · rw [Table.update_rows, hev]
    rfl
  · exact s.sqsQueues.update_outside (f := values) (fun _ => rfl) hp fun _ => rfl
  · rw [Table.update_rows, hev]

/-- The events of `u` are those of the queues deleted and those of the queues that stay. -/
theorem ownsEvent_delete {p : SqsQueue → Bool} (hp : ∀ q, p q = true → (q.userId == u) = true)
    (queues : List SqsQueue) (e : SqsEvent) :
    ownsEvent queues u e = ((queues.filter p).any (·.id == e.queueId) ||
      ownsEvent (queues.filter fun q => !p q) u e) := by
  rw [Bool.eq_iff_iff]
  simp only [ownsEvent, Bool.or_eq_true, List.any_eq_true, List.mem_filter, Bool.and_eq_true]
  constructor
  · intro h
    obtain ⟨q, hq, hid, hu⟩ := h
    cases hpq : p q with
    | true => exact .inl ⟨q, ⟨hq, hpq⟩, hid⟩
    | false => exact .inr ⟨q, ⟨hq, by simp [hpq]⟩, hid, hu⟩
  · intro h
    rcases h with ⟨q, ⟨hq, hpq⟩, hid⟩ | ⟨q, ⟨hq, -⟩, hid, hu⟩
    · exact ⟨q, hq, hid, hp q hpq⟩
    · exact ⟨q, hq, hid, hu⟩

theorem deleteQueue_isolated (queueId : Uuid) :
    Isolated u s fun t => (SqsQueueRepository.deleteForUser t queueId u).map .bool id := by
  let mine := fun q : SqsQueue => q.id == queueId && ownedBy u q.userId
  have hp : ∀ q, mine q = true → (q.userId == u) = true := fun q => scope_right
  have hgone : (s.own u).sqsQueues.select mine = s.sqsQueues.select mine := s.sqsQueues.select_restrict hp
  have hev := ownsEvent_delete u hp s.sqsQueues.rows
  refine .queues u s (w := fun t => t.sqsQueues.delete mine)
    (v := fun t => t.sqsEvents.delete fun e => (t.sqsQueues.select mine).any (·.id == e.queueId)) ?_ ?_ ?_ ?_ ?_ ?_
  · trivial
  · show Reply.bool (!((s.own u).sqsQueues.select mine).isEmpty) = _
    rw [hgone]
  · exact s.sqsQueues.delete_restrict _ _
  · refine Table.ext ?_
    show List.filter _ (List.filter _ _) = List.filter _ (List.filter _ _)
    rw [hgone, List.filter_filter, List.filter_filter]
    refine List.filter_congr fun e _ => ?_
    simp only [hev e, Table.delete_rows, Table.select]
    rw [Bool.and_or_distrib_left, Bool.not_and_self, Bool.false_or, Bool.and_comm]
  · exact s.sqsQueues.delete_outside hp
  · simp only [Table.select, Table.delete_rows, List.filter_filter]
    refine List.filter_congr fun e _ => ?_
    rw [hev e, Bool.not_or, Bool.and_comm]

theorem join_own {on : SqsEvent → SqsQueue → Bool} (hid : ∀ e q, on e q = true → (q.id == e.queueId) = true)
    (hq : ∀ e q, on e q = true → (q.userId == u) = true) :
    join (s.own u).sqsEvents.rows (s.own u).sqsQueues.rows on = join s.sqsEvents.rows s.sqsQueues.rows on := by
  refine join_restrict hq fun e q hm hon => ?_
  refine List.any_eq_true.mpr ⟨q, hm, ?_⟩
  rw [hid e q hon, hq e q hon]
  rfl

theorem listEvents_isolated (limit : Nat) :
    Isolated u s fun t => (.events (SqsEventRepository.listForUser t u limit), t) := by
  refine .read ?_ ?_
  · intro x hx
    obtain ⟨-, hq, hon⟩ := mem_join.mp (mem_orderByDesc.mp (mem_of_mem_page hx))
    rw [Bool.and_eq_true, beq_iff_eq] at hon
    exact ⟨hq, hon.1, ownedBy_iff.mp hon.2⟩
  · refine congrArg (fun rows => Reply.events (page limit 0 (orderByDesc (fun x => x.1.createdAt) rows)))
      (join_own u s ?_ ?_)
    · intro e q hon
      rw [Bool.and_eq_true, beq_iff_eq] at hon
      exact beq_iff_eq.mpr hon.1.symm
    · exact fun e q => scope_right

theorem countEventsToday_isolated (now : Int) (queueId : Uuid) :
    Isolated u s fun t => (.count (SqsEventRepository.countTodayForQueue now t queueId u), t) := by
  refine .read trivial (congrArg (fun rows : List (SqsEvent × SqsQueue) => Reply.count rows.length)
    (join_own u s ?_ ?_))
  · intro e q hon
    rw [Bool.and_eq_true, beq_iff_eq] at hon
    exact beq_iff_eq.mpr hon.1.symm
  · intro e q hon
    rw [Bool.and_eq_true] at hon
    exact scope_right hon.2

theorem clearEvents_isolated : Isolated u s fun t => (SqsEventRepository.clearForUser t u).map .count id := by
  let mine := fun e : SqsEvent => (s.sqsQueues.select fun q => ownedBy u q.userId).any (·.id == e.queueId)
  have hp : ∀ e, mine e = true → ownsEvent s.sqsQueues.rows u e = true := by
    intro e he
    obtain ⟨q, hq, hid⟩ := List.any_eq_true.mp he
    have hm := List.mem_filter.mp hq
    refine List.any_eq_true.mpr ⟨q, hm.1, ?_⟩
    rw [hid, scope hm.2]
    rfl
  have hqs := s.sqsQueues.select_restrict fun q => @scope u q.userId
  have hg : Isolated u s fun t => (.count (t.sqsEvents.count mine),
      { t with sqsEvents := t.sqsEvents.delete mine }) := by
    refine .queues u s (w := Tables.sqsQueues) (v := fun t => t.sqsEvents.delete mine) ?_ ?_ rfl ?_ rfl ?_
    · trivial
    · exact congrArg Reply.count (s.sqsEvents.count_restrict hp)
    · exact s.sqsEvents.delete_restrict _ _
    · exact s.sqsEvents.delete_outside hp
  refine hg.of_eq rfl ?_
  show Prod.map Reply.count id (SqsEventRepository.clearForUser (s.own u) u) = _
  simp only [SqsEventRepository.clearForUser, Tables.own, hqs]
  rfl

end Queues

/-! ## Settings -/

section Settings

variable (u : Option Uuid) (s : Tables)

/-- A statement that changes user_settings. -/
theorem Isolated.settings {f : Tables → Reply} {w : Table UserSetting.pk → Table UserSetting.pk}
    (owned : (f s).Owned s u) (hf : f (s.own u) = f s)
    (hw : w (s.userSettings.restrict (some ·.userId == u)) = (w s.userSettings).restrict (some ·.userId == u))
    (hout : ((w s.userSettings).select fun r => !(some r.userId == u)) =
      s.userSettings.select fun r => !(some r.userId == u)) :
    Isolated u s fun t => (f t, { t with userSettings := w t.userSettings }) where
  owned := owned
  others := congrArg (fun rows => { s.others u with userSettings := rows }) hout
  own := Prod.ext hf (congrArg (fun t => { s.own u with userSettings := t }) hw)

theorem mine_own (key : String) (r : UserSetting) (h : UserSettingsRepository.mine u key r = true) :
    (some r.userId == u) = true := scope_left h

theorem getSetting_isolated (key : String) :
    Isolated u s fun t => (reply .setting (UserSettingsRepository.get t u key), t) := by
  refine .read (reply_owned fun value hv => ?_) ?_
  · intro v hmem
    obtain ⟨r, hr, rfl⟩ := List.mem_map.mp (mem_scalarOneOrNone hv v hmem)
    have hm := List.mem_filter.mp hr
    exact ⟨r, hm.1, beq_iff_eq.mp (mine_own u key r hm.2), rfl⟩
  · have h := s.userSettings.select_restrict (mine_own u key)
    exact congrArg (fun rows : List UserSetting => reply .setting (scalarOneOrNone (rows.map (·.value)))) h

theorem deleteSetting_isolated (key : String) :
    Isolated u s fun t => (UserSettingsRepository.delete t u key).map .bool id := by
  refine .settings u s (w := fun t => t.delete _) ?_ ?_ (s.userSettings.delete_restrict _ _) ?_
  · trivial
  · exact congrArg (fun n => Reply.bool (decide (0 < n))) (s.userSettings.count_restrict (mine_own u key))
  · exact s.userSettings.delete_outside (mine_own u key)

theorem upsertSetting_isolated (now : Int) (key value : String) :
    Isolated u s fun t => (UserSettingsRepository.upsert now t u key value).map (reply fun _ => .done) id := by
  cases u with
  | none => exact .raise none s .integrityError
  | some u =>
    let taken := fun r : UserSetting => r.pk == (u, key)
    have hp : ∀ r, taken r = true → (some r.userId == some u) = true := by
      intro r hr
      simp only [taken, beq_iff_eq, UserSetting.pk, Prod.mk.injEq] at hr
      rw [hr.1, beq_self_eq_true]
    have hany : (s.own (some u)).userSettings.rows.any taken = s.userSettings.rows.any taken :=
      any_restrict hp s.userSettings.rows
    have husers : (s.own (some u)).userExists (some u) = s.userExists (some u) := rfl
    by_cases hset : s.userSettings.rows.any taken = true
    · let set := fun r : UserSetting => { r with value }
      have hg : Isolated (some u) s fun t =>
          (.done, { t with userSettings := t.userSettings.update taken set fun _ => rfl }) := by
        refine .settings (some u) s (w := fun t => t.update taken set fun _ => rfl) trivial rfl ?_ ?_
        · exact s.userSettings.update_restrict (f := set) (fun _ => rfl) fun _ => rfl
        · exact s.userSettings.update_outside (f := set) (fun _ => rfl) hp fun _ => rfl
      refine hg.of_eq ?_ ?_
      · simp only [UserSettingsRepository.upsert]
        rw [if_pos hset]
        rfl
      · simp only [UserSettingsRepository.upsert]
        rw [if_pos (hany.trans hset)]
        rfl
    by_cases hu : s.userExists (some u) = true
    · have hfresh : ∀ r ∈ s.userSettings.rows, r.pk ≠ UserSetting.pk ⟨u, key, value, now⟩ := by
        intro r hr hpk
        exact hset (List.any_eq_true.mpr ⟨r, hr, beq_iff_eq.mpr hpk⟩)
      have hnew : (some (UserSetting.mk u key value now).userId == some u) = true := beq_self_eq_true _
      have hg : Isolated (some u) s fun t =>
          (.done, { t with userSettings := t.userSettings.insert ⟨u, key, value, now⟩ }) := by
        refine .settings (some u) s (w := fun t => t.insert ⟨u, key, value, now⟩) trivial rfl ?_ ?_
        · exact s.userSettings.insert_restrict hfresh hnew
        · exact s.userSettings.insert_outside (q := fun r => some r.userId == some u) hnew
      refine hg.of_eq ?_ ?_
      · simp only [UserSettingsRepository.upsert]
        rw [if_neg hset, if_pos hu]
        rfl
      · simp only [UserSettingsRepository.upsert]
        rw [if_neg fun h => hset (hany.symm.trans h), if_pos (husers.trans hu)]
        rfl
    · refine (Isolated.raise (some u) s .integrityError).of_eq ?_ ?_
      · simp only [UserSettingsRepository.upsert]
        rw [if_neg hset, if_neg hu]
        rfl
      · simp only [UserSettingsRepository.upsert]
        rw [if_neg fun h => hset (hany.symm.trans h), if_neg fun h => hu (husers.symm.trans h)]
        rfl

end Settings

/-! ## Logs -/

section Logs

variable (u : Option Uuid) (s : Tables)

theorem filtered_own (category : Option String) (r : ActivityLog)
    (h : ActivityLogRepository.filtered category u false r = true) : (r.userId == u) = true := scope_right h

theorem listLogs_isolated (category : Option String) (limit offset : Nat) :
    Isolated u s fun t => (.logs (ActivityLogRepository.listFiltered t category u false limit offset), t) := by
  refine .read ?_ ?_
  · intro r hr
    have hm := List.mem_filter.mp (mem_orderByDesc.mp (mem_of_mem_page hr))
    exact beq_iff_eq.mp (filtered_own u category r hm.2)
  · have h := s.activityLogs.select_restrict (filtered_own u category)
    exact congrArg (fun rows => Reply.logs (page limit offset (orderByDesc ActivityLog.createdAt rows))) h

theorem countLogs_isolated (category : Option String) :
    Isolated u s fun t => (.count (ActivityLogRepository.countFiltered t category u false), t) :=
  .read trivial (congrArg Reply.count (s.activityLogs.count_restrict (filtered_own u category)))

theorem clearLogs_isolated (category : Option String) :
    Isolated u s fun t => (ActivityLogRepository.clearForUser t category u).map .count id := by
  let mine := fun r : ActivityLog => ownedBy u r.userId && category.all (r.category == ·)
  have hp : ∀ r, mine r = true → (r.userId == u) = true := fun r => scope_left
  constructor
  · trivial
  · exact congrArg (fun rows => { s.others u with activityLogs := rows }) (s.activityLogs.delete_outside hp)
  · have h :=
      congrArg (fun t => { s.own u with activityLogs := t }) (s.activityLogs.delete_restrict mine (·.userId == u))
    exact Prod.ext (congrArg Reply.count (s.activityLogs.count_restrict hp)) h

end Logs

/-! ## Every call -/

theorem perform_isolated (now : Int) (s : Tables) (u : Option Uuid) (c : Call) :
    Isolated u s fun t => perform now t u c := by
  cases c with
  | listJobs limit offset => exact listJobs_isolated u s _ _
  | cancelJob jobId => exact cancelJob_isolated u s jobId
  | deleteJob jobId => exact deleteJob_isolated u s jobId
  | clearCompletedJobs => exact clearCompletedJobs_isolated u s
  | listDatastores => exact listDatastores_isolated u s
  | getDatastore datastoreId => exact getDatastore_isolated u s datastoreId
  | upsertDatastore v => exact upsertDatastore_isolated u s now v
  | deleteDatastore datastoreId => exact deleteDatastore_isolated u s datastoreId
  | listSqsCredentials => exact listSqsCredentials_isolated u s
  | getSqsCredentials => exact getSqsCredentials_isolated u s
  | upsertSqsCredentials accessKey secret region =>
    exact upsertSqsCredentials_isolated u s now accessKey secret region
  | deleteSqsCredentials => exact deleteSqsCredentials_isolated u s
  | listQueues => exact listQueues_isolated u s
  | getQueue queueId => exact getQueue_isolated u s queueId
  | updateQueueStatus queueId status message => exact updateQueueStatus_isolated u s queueId status message
  | deleteQueue queueId => exact deleteQueue_isolated u s queueId
  | listEvents limit => exact listEvents_isolated u s _
  | countEventsToday queueId => exact countEventsToday_isolated u s now queueId
  | clearEvents => exact clearEvents_isolated u s
  | getSetting key => exact getSetting_isolated u s key
  | upsertSetting key value => exact upsertSetting_isolated u s now key value
  | deleteSetting key => exact deleteSetting_isolated u s key
  | listLogs category limit offset => exact listLogs_isolated u s category _ _
  | countLogs category => exact countLogs_isolated u s category
  | clearLogs category => exact clearLogs_isolated u s category

theorem exec_isolated (now : Int) (s : Tables) (u : Option Uuid) (c : Call) :
    Isolated u s fun t => exec now t u c := by
  by_cases hb : c.binds = true
  · exact (perform_isolated now s u c).of_eq (if_pos hb) (if_pos hb)
  · exact (Isolated.raise u s .dataError).of_eq (if_neg hb) (if_neg hb)

/-- Call after call, `u` is answered as if nobody else had a row. -/
theorem execAll_own (u : Option Uuid) (calls : List (Int × Call)) (s : Tables) :
    execAll (s.own u) u calls = ((execAll s u calls).1, (execAll s u calls).2.own u) := by
  induction calls generalizing s with
  | nil => rfl
  | cons call calls ih =>
    obtain ⟨now, c⟩ := call
    have h := (exec_isolated now s u c).own
    simp only [execAll, h, ih]

/-- User isolation, of every call in every state of the tables: the reply's rows are `u`'s, the rows that are not
`u`'s are left as they were, and reply and state are those of tables without these rows, so is any run of calls. -/
theorem isolated (now : Int) (s : Tables) (u : Option Uuid) (c : Call) (calls : List (Int × Call)) :
    (exec now s u c).1.Owned s u ∧ (exec now s u c).2.others u = s.others u ∧
      exec now (s.own u) u c = ((exec now s u c).1, (exec now s u c).2.own u) ∧
      (execAll (s.own u) u calls).1 = (execAll s u calls).1 :=
  have h := exec_isolated now s u c
  ⟨h.owned, h.others, h.own, by rw [execAll_own]⟩

end Connect.Data
