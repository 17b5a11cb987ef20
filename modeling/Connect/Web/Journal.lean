/-
  Connect.Web.Journal — the activity log: ActivityLogger.log and _persist
  (services/activity_logger.py), the log pages and clear_logs_category (main.py), the nightly
  cleanup_old_activity_logs (services/worker.py), and what the rest of the program does to
  the table.

  An entry is logged by a task of its own, which inserts it or gives up. Each statement runs in
  a transaction of its own, and the tasks interleave at their statements. A page is asked for
  by whom the middleware has attached to the request; the user ids it reads are of any text.
-/

import Connect.Auth.Gate
import Connect.Data.LogPaging

namespace Connect.Data

open Sql

deriving instance DecidableEq for ActivityLog

/-- `ON DELETE CASCADE`, and `SET NULL` in the log. -/
def Tables.deleteUser (s : Tables) (userId : Uuid) : Tables where
  users := s.users.filter (· != userId)
  importJobs := s.importJobs.delete fun r => r.userId == some userId
  datastoreCredentials := s.datastoreCredentials.delete fun r => r.userId == some userId
  sqsCredentials := s.sqsCredentials.delete fun r => r.userId == some userId
  sqsQueues := s.sqsQueues.delete fun r => r.userId == some userId
  sqsEvents := s.sqsEvents.delete fun e => s.sqsQueues.rows.any fun q => q.id == e.queueId && q.userId == some userId
  userSettings := s.userSettings.delete fun r => r.userId == userId
  activityLogs := s.activityLogs.update (fun r => r.userId == some userId)
    (fun r => { r with userId := none }) fun _ => rfl

end Connect.Data

namespace Connect.Web.Journal

open Await Data Sql Auth

/-- What `ActivityLogger.log` is given. -/
structure Entry where
  category : String
  action : String
  message : String
  level : String
  userId : Option String
  details : Option Json
  relatedId : Option String
  relatedType : Option String
  ipAddress : Option String
  deriving DecidableEq, Repr

def Entry.texts (e : Entry) : List String :=
  [e.category, e.action, e.message, e.level] ++ e.relatedId.toList ++ e.relatedType.toList ++ e.ipAddress.toList

def Entry.row (e : Entry) (userId : Option Uuid) (createdAt : Int) (id : Nat) : ActivityLog :=
  ⟨id, e.category, e.action, e.message, e.level, userId, e.details, e.relatedId, e.relatedType, e.ipAddress,
    createdAt⟩

/-- The statements, each with its commit, and what else may raise. -/
inductive LogOp where
  | getUserSession (userId : String)
  | createEntry (entry : Entry) (userId : Option Uuid)
  | listFiltered (category : Option String) (userId : Option Uuid) (includeAllUsers : Bool) (limit offset : Int)
  | countFiltered (category : Option String) (userId : Option Uuid) (includeAllUsers : Bool)
  | clearForUser (category : Option String) (userId : Option Uuid)
  /-- `sa_delete(ActivityLog).where(ActivityLog.category == db_category)`. -/
  | clearCategory (category : String)
  | clearOld (days : Nat)
  | publishLog (message : String)
  | createUser (userId : Uuid)
  | deleteUser (userId : Uuid)
  /-- Another repository operation of a user's. -/
  | call (userId : Option Uuid) (c : Call)
  deriving DecidableEq

def LogOp.Ret : LogOp → Type
  | .listFiltered _ _ _ _ _ => List ActivityLog
  | .countFiltered _ _ _ | .clearForUser _ _ | .clearOld _ => Nat
  | _ => Unit

abbrev logSig : Sig := ⟨LogOp, LogOp.Ret⟩

abbrev LogProg := Prog logSig Exc

def perform (o : LogOp) : LogProg o.Ret := @Prog.await logSig Exc o

def clearOld (days : Nat) : LogProg Nat := perform (.clearOld days)
def publishLog (message : String) : LogProg Unit := perform (.publishLog message)

/-! ## Code -/

section Code

variable (U : Unicode)

/-- `_parse_user_id`. -/
def parseUserId (userId : Option String) : Option Uuid := userId.bind (Uuid.ofString U)

/-- `_persist`, the task that `log` leaves behind. -/
def persist (entry : Entry) : LogProg Unit :=
  (perform (.createEntry entry (parseUserId U entry.userId))).catching fun e =>
    if e.isException then .ret () else .raise e

/-- The dict of a row; `created_at` is left a time. -/
structure LogDict where
  id : Nat
  category : String
  action : String
  message : String
  level : String
  userId : Option String
  details : Option Json
  relatedId : Option String
  relatedType : Option String
  ipAddress : Option String
  createdAt : Int

def LogDict.of (r : ActivityLog) : LogDict :=
  ⟨r.id, r.category, r.action, r.message, r.level, r.userId.map Uuid.str, r.details, r.relatedId,
    r.relatedType, r.ipAddress, r.createdAt⟩

def alistLogs (category : Option String) (userId : Option String) (limit offset : Int)
    (includeAllUsers : Bool) : LogProg (List LogDict) := do
  let rows ← (perform (.listFiltered category (parseUserId U userId) includeAllUsers limit offset) : LogProg
    (List ActivityLog))
  return rows.map LogDict.of

def acountLogs (category : Option String) (userId : Option String) (includeAllUsers : Bool) : LogProg Nat :=
  perform (.countFiltered category (parseUserId U userId) includeAllUsers)

def aclearLogs (category : Option String) (userId : Option String) : LogProg Nat :=
  perform (.clearForUser category (parseUserId U userId))

inductive Reply where
  | httpError (statusCode : Nat) (detail : String)
  | page (template : String) (logs : List LogDict) (total : Nat) (limit offset : Int) (category : String)

/-- `get_session_from_request`, and the route. -/
def withSession (attached : Option Attached) (route : Attached → LogProg Reply) : LogProg Reply :=
  match attached with
  | none => return .httpError 401 "Not authenticated"
  | some user =>
    if user.userId = "" then return .httpError 401 "Not authenticated"
    else do
      let _ ← perform (.getUserSession user.userId)
      route user

/-- A page of one's own entries. -/
def ownLogs (dbCategory template category : String) (attached : Option Attached) (limit offset : Int) :
    LogProg Reply :=
  withSession attached fun user => do
    let logs ← alistLogs U (some dbCategory) (some user.userId) limit offset false
    let total ← acountLogs U (some dbCategory) (some user.userId) false
    return .page template logs total limit offset category

def logsApp : Option Attached → Int → Int → LogProg Reply := ownLogs U "app" "partials/logs_app.html" "app"

def logsJobs : Option Attached → Int → Int → LogProg Reply := ownLogs U "job" "partials/logs_jobs.html" "jobs"

def logsSqs : Option Attached → Int → Int → LogProg Reply := ownLogs U "sqs" "partials/logs_sqs.html" "sqs"

def logsAdmin (attached : Option Attached) (limit offset : Int) : LogProg Reply :=
  withSession attached fun user =>
    if user.isAdmin = false then return .httpError 403 "Admin access required"
    else do
      let logs ← alistLogs U (some "admin") none limit offset true
      let total ← acountLogs U (some "admin") none true
      return .page "partials/logs_admin.html" logs total limit offset "admin"

def validCategories (isAdmin : Bool) : List String := ["app", "jobs", "sqs"] ++ if isAdmin then ["admin"] else []

def dbCategory (category : String) : String := if category ≠ "jobs" then category else "job"

def templateMap : List (String × String) :=
  [("app", "partials/logs_app.html"), ("jobs", "partials/logs_jobs.html"), ("sqs", "partials/logs_sqs.html"),
    ("admin", "partials/logs_admin.html")]

def clearLogsCategory (attached : Option Attached) (category : String) : LogProg Reply :=
  withSession attached fun user =>
    let cleared := Reply.page ((templateMap.lookup category).getD "") [] 0 100 0 category
    if category ∉ validCategories user.isAdmin then return .httpError 400 "Invalid category"
    else if category = "admin" then
      if user.isAdmin = false then return .httpError 403 "Admin access required"
      else do
        let _ ← perform (.clearCategory (dbCategory category))
        return cleared
    else do
      let _ ← aclearLogs U (some (dbCategory category)) (some user.userId)
      return cleared

def cleanupOldActivityLogs : LogProg Unit := do
  let deleted ← clearOld 30
  if 0 < deleted then publishLog ("Cleanup: removed " ++ toString deleted ++ " old activity log(s)") else return ()

end Code

/-! ## The system -/

structure State where
  now : Int
  tables : Tables

abbrev State.logs (s : State) : Serial ActivityLog.id := s.tables.activityLogs

def day : Int := 86400000000

/-- The rows a statement deletes. -/
def LogOp.removes (now : Int) : LogOp → ActivityLog → Bool
  | .clearForUser category userId, r => ownedBy userId r.userId && category.all (r.category == ·)
  | .clearCategory category, r => r.category == category
  | .clearOld days, r => r.createdAt < now - days * day
  | _, _ => false

def State.withLogs (s : State) (logs : Serial ActivityLog.id) :
    State := { s with tables := { s.tables with activityLogs := logs } }

def State.remove (s : State) (o : LogOp) : State := s.withLogs (s.logs.delete (o.removes s.now))

/-- The parameters of a statement on the log that the driver takes. -/
def LogOp.binds : LogOp → Bool
  | .createEntry entry _ => entry.texts.all isText
  | .listFiltered category _ _ limit offset => category.all isText && isLimit limit && isLimit offset
  | .countFiltered category _ _ | .clearForUser category _ => category.all isText
  | .clearCategory category => isText category
  | _ => true

def isClearLogs : Call → Bool
  | .clearLogs _ => true
  | _ => false

/-- Whatever raises has no effect. Whether a `details` is taken by its column is left open. -/
def State.exec (s : State) : (o : LogOp) → Except Exc o.Ret → Option State
  | _, .error _ => some s
  | .getUserSession _, .ok _ | .publishLog _, .ok _ => some s
  | .createEntry entry userId, .ok _ =>
    if (LogOp.createEntry entry userId).binds && s.tables.userExists userId && s.logs.next ≤ maxInteger then
      some (s.withLogs (s.logs.insert (entry.row userId s.now) fun _ => rfl))
    else none
  | .listFiltered category userId includeAllUsers limit offset, .ok (rows : List ActivityLog) =>
    if (LogOp.listFiltered category userId includeAllUsers limit offset).binds ∧
        rows = ActivityLogRepository.listFiltered s.tables category userId includeAllUsers limit.toNat offset.toNat then
      some s
    else none
  | .countFiltered category userId includeAllUsers, .ok (n : Nat) =>
    if (LogOp.countFiltered category userId includeAllUsers).binds ∧
        n = ActivityLogRepository.countFiltered s.tables category userId includeAllUsers then some s else none
  | .clearForUser category userId, .ok (n : Nat) =>
    if (LogOp.clearForUser category userId).binds ∧
      n = s.logs.count ((LogOp.clearForUser category userId).removes s.now) then
      some (s.remove (.clearForUser category userId))
    else none
  | .clearCategory category, .ok _ =>
    if (LogOp.clearCategory category).binds then some (s.remove (.clearCategory category)) else none
  | .clearOld days, .ok (n : Nat) =>
    if n = s.logs.count ((LogOp.clearOld days).removes s.now) then some (s.remove (.clearOld days)) else none
  | .createUser userId, .ok _ =>
    if userId ∈ s.tables.users then none
      else some { s with tables := { s.tables with users := userId :: s.tables.users } }
  | .deleteUser userId, .ok _ => some { s with tables := s.tables.deleteUser userId }
  | .call userId c, .ok _ =>
    if isClearLogs c then none else some { s with tables := (Data.exec s.now s.tables userId c).2 }

inductive Tab where
  | app
  | jobs
  | sqs
  | admin
  deriving DecidableEq, Repr

inductive Task where
  | log (entry : Entry)
  | page (attached : Option Attached) (tab : Tab) (limit offset : Int)
  | clear (attached : Option Attached) (category : String)
  | cleanup
  | createUser (userId : Uuid)
  | deleteUser (userId : Uuid)
  | call (userId : Option Uuid) (c : Call)

inductive Outside where
  | pass (microseconds : Nat)
  /-- A number of the sequence is drawn by an insert that is rolled back. -/
  | draw

def Task.code (U : Unicode) : Task → LogProg (Option Reply)
  | .log entry => (fun _ => none) <$> persist U entry
  | .page attached .app limit offset => some <$> logsApp U attached limit offset
  | .page attached .jobs limit offset => some <$> logsJobs U attached limit offset
  | .page attached .sqs limit offset => some <$> logsSqs U attached limit offset
  | .page attached .admin limit offset => some <$> logsAdmin U attached limit offset
  | .clear attached category => some <$> clearLogsCategory U attached category
  | .cleanup => (fun _ => none) <$> cleanupOldActivityLogs
  | .createUser userId => (fun _ => none) <$> perform (.createUser userId)
  | .deleteUser userId => (fun _ => none) <$> perform (.deleteUser userId)
  | .call userId c => (fun _ => none) <$> perform (.call userId c)

/-- A deployment, from an empty log. -/
def journalSystem (U : Unicode) : System logSig Exc (Option Reply) where
  State := State
  Env := Outside
  Task := Task
  init := fun s => s.logs.rows = []
  exec := fun _ s o r => s.exec o r
  env
    | s, .pass microseconds => some { s with now := s.now + microseconds }
    | s, .draw => some (s.withLogs s.logs.draw)
  starts := fun _ _ => true
  code := fun _ t => t.code U

/-! ## What a statement does to the log -/

/-- What a statement may do to the log; its sequence never goes back. -/
inductive Effect (s : State) (o : LogOp) (r : Except Exc o.Ret) (s' : State) : Prop where
  | kept (rows : s'.logs.rows = s.logs.rows) (next : s.logs.next ≤ s'.logs.next)
  | written (entry : Entry) (userId : Option Uuid) (op : o = .createEntry entry userId) (ok : r.toBool = true)
      (rows : s'.logs.rows = s.logs.rows ++ [entry.row userId s.now s.logs.next])
      (next : s'.logs.next = s.logs.next + 1)
  | removed (rows : s'.logs.rows = s.logs.rows.filter fun r => !o.removes s.now r) (next : s'.logs.next = s.logs.next)
  | orphaned (userId : Uuid) (op : o = .deleteUser userId)
      (rows : s'.logs.rows = s.logs.rows.map
        fun r => if r.userId == some userId then { r with userId := none } else r)
      (next : s'.logs.next = s.logs.next)

/-- Of the operations that take a user, only `clear_for_user` touches the log. -/
theorem call_logs (now : Int) (s : Tables) (userId : Option Uuid) {c : Call} (h : isClearLogs c = false) :
    (Data.exec now s userId c).2.activityLogs = s.activityLogs := by
  unfold Data.exec
  split
  · cases c with
    | upsertDatastore v =>
      show (DatastoreCredentialsRepository.upsert now s v userId).2.activityLogs = _
      unfold DatastoreCredentialsRepository.upsert
      dsimp only
      repeat' split
      all_goals rfl
    | upsertSqsCredentials accessKey secretKeyEncrypted region =>
      show (SqsCredentialsRepository.upsertForUser now s accessKey secretKeyEncrypted region
          userId).2.activityLogs = _
      unfold SqsCredentialsRepository.upsertForUser
      dsimp only
      repeat' split
      all_goals rfl
    | upsertSetting key value =>
      show (UserSettingsRepository.upsert now s userId key value).2.activityLogs = _
      unfold UserSettingsRepository.upsert
      dsimp only
      repeat' split
      all_goals rfl
    | clearLogs category => cases h
    | _ => rfl
  · rfl

theorem exec_effect {s s' : State} {o : LogOp} {r : Except Exc o.Ret} (h : s.exec o r = some s') :
    Effect s o r s' := by
  have hsame : ∀ {b : Prop} {d : Decidable b}, @ite _ b d (some s) none = some s' → Effect s o r s' := by
    intro b _ hb
    split at hb
    · cases hb
      exact .kept rfl (Nat.le_refl _)
    · cases hb
  have hremove : ∀ {b : Prop} {d : Decidable b}, @ite _ b d (some (s.remove o)) none = some s' → Effect s o r s' := by
    intro b _ hb
    split at hb
    · cases hb
      exact .removed rfl rfl
    · cases hb
  cases r with
  | error e =>
    have hs : s = s' := by cases o <;> exact Option.some.inj h
    exact hs ▸ .kept rfl (Nat.le_refl _)
  | ok a =>
    cases o with
    | getUserSession userId => cases h; exact .kept rfl (Nat.le_refl _)
    | publishLog message => cases h; exact .kept rfl (Nat.le_refl _)
    | createEntry entry userId =>
      simp only [State.exec, Option.ite_none_right_eq_some, Option.some.injEq] at h
      obtain ⟨-, rfl⟩ := h
      exact .written entry userId rfl rfl rfl rfl
    | listFiltered category userId includeAllUsers limit offset => exact hsame h
    | countFiltered category userId includeAllUsers => exact hsame h
    | clearForUser category userId => exact hremove h
    | clearCategory category => exact hremove h
    | clearOld days => exact hremove h
    | createUser userId =>
      simp only [State.exec, Option.ite_none_left_eq_some, Option.some.injEq] at h
      obtain ⟨-, rfl⟩ := h
      exact .kept rfl (Nat.le_refl _)
    | deleteUser userId =>
      cases h
      exact .orphaned userId rfl rfl rfl
    | call userId c =>
      simp only [State.exec, Option.ite_none_left_eq_some, Option.some.injEq] at h
      obtain ⟨hc, rfl⟩ := h
      have hlogs := call_logs s.now s.tables userId (Bool.not_eq_true _ ▸ hc)
      exact .kept (congrArg (·.rows) hlogs) (Nat.le_of_eq (congrArg (·.next) hlogs).symm)

end Connect.Web.Journal
