/-
  Connect.Web.JobQueue — `JobQueue.get_jobs` and `get_queue_status` (services/job_queue.py).

  The status counts what `get_jobs` gives, which is what `list_for_user` gives by its
  default: the 100 newest rows of the user. So the numbers are those of the user's rows
  exactly when every pending or running row is among the 100 newest, ties included
  (`counts_exact_iff`).
-/

import Connect.Data.Credentials
import Connect.Jinja
import Connect.Sql.Order
import Connect.Uuid

namespace Connect.Web

open Data Sql
open Jinja (Value)

structure JobQueue where
  /-- `set_sessionmaker` has been called. -/
  sessionmaker : Bool
  redisPool : Bool

/-- `uuid.UUID(user_id) if user_id else None`. -/
def parsedUserId (U : Unicode) (userId : Option String) : Except Exc (Option Uuid) :=
  match truthy userId with
  | none => .ok none
  | some s =>
    match Uuid.ofString U s with
    | some u => .ok (some u)
    | none => .error (.exception "badly formed hexadecimal UUID string")

def optional {α : Type} (f : α → Value) : Option α → Value
  | some a => f a
  | none => .none

/-- The dictionary of a row. -/
def jobDict (j : Job) : List (String × Value) :=
  [("id", .int j.id),
    ("status", .str j.status),
    ("bucket", .str j.bucket),
    ("prefix", .str j.keyPrefix),
    ("filespace_id", .str j.filespaceId),
    ("datastore_id", .str j.datastoreId),
    ("total_files", .int j.totalFiles),
    ("completed_files", .int j.completedFiles),
    ("failed_files", .int j.failedFiles),
    ("error_message", optional .str j.errorMessage),
    ("created_at", .datetime j.createdAt),
    ("started_at", optional .datetime j.startedAt),
    ("completed_at", optional .datetime j.completedAt),
    ("user_id", optional (fun u => .str u.str) j.userId)]

def getJobs (U : Unicode) (q : JobQueue) (s : Tables) (userId : Option String) :
    Except Exc (List (List (String × Value))) :=
  if q.sessionmaker then do
    let parsed ← parsedUserId U userId
    return (JobRepository.listForUser s parsed 100 0).map jobDict
  else .error (.exception "JobQueue.set_sessionmaker() must be called before get_jobs()")

structure QueueStatus where
  pending : Nat
  running : Nat
  connected : Bool
  deriving DecidableEq, Repr

/-- `j["status"] == status`. -/
def hasStatus (status : String) (j : List (String × Value)) : Bool :=
  match j.lookup "status" with
  | some (.str s) => s == status
  | _ => false

def getQueueStatus (U : Unicode) (q : JobQueue) (s : Tables) (userId : Option String) : Except Exc QueueStatus := do
  let jobs ← getJobs U q s userId
  return ⟨jobs.countP (hasStatus "pending"), jobs.countP (hasStatus "running"), q.redisPool⟩

theorem str_ne_empty (u : Uuid) : u.str ≠ "" := by
  intro h
  have hread := Uuid.ofString_str ⟨fun _ => none, fun _ => false⟩ u
  rw [h] at hread
  cases hread

@[simp] theorem parsedUserId_str (U : Unicode) (u : Option Uuid) : parsedUserId U (u.map Uuid.str) = .ok u := by
  cases u with
  | none => rfl
  | some u => simp [parsedUserId, truthy, Option.filter, str_ne_empty]

section Counts

variable (U : Unicode) (redisPool : Bool) (s : Tables) (u : Option Uuid)

/-- The rows of a user. -/
def userJobs : List Job := s.importJobs.select fun r => ownedBy u r.userId

theorem getJobs_eq : getJobs U ⟨true, redisPool⟩ s (u.map Uuid.str) =
    .ok ((JobRepository.listForUser s u 100 0).map jobDict) := by
  unfold getJobs
  rw [if_pos rfl, parsedUserId_str]
  rfl

theorem countP_hasStatus (status : String) (rows : List Job) :
    (rows.map jobDict).countP (hasStatus status) = rows.countP (·.status == status) := by
  rw [List.countP_map]
  rfl

theorem getQueueStatus_eq : getQueueStatus U ⟨true, redisPool⟩ s (u.map Uuid.str) =
    .ok ⟨(JobRepository.listForUser s u 100 0).countP (·.status == "pending"),
      (JobRepository.listForUser s u 100 0).countP (·.status == "running"), redisPool⟩ := by
  unfold getQueueStatus
  rw [getJobs_eq]
  simp only [← countP_hasStatus]
  rfl

/-- The numbers are those of the user's rows, in whatever order the rows of one `created_at` come. -/
def CountsExact (q : JobQueue) : Prop :=
  ∀ scan : Serial Job.id, scan.rows.Perm s.importJobs.rows →
    ∃ status, getQueueStatus U q { s with importJobs := scan } (u.map Uuid.str) = .ok status ∧
      status.pending = s.importJobs.count (fun r => ownedBy u r.userId && r.status == "pending") ∧
      status.running = s.importJobs.count (fun r => ownedBy u r.userId && r.status == "running")

theorem count_status (status : String) :
    s.importJobs.count (fun r => ownedBy u r.userId && r.status == status) =
      (userJobs s u).countP (·.status == status) := by
  simp only [Table.count, Table.select, userJobs, List.countP_eq_length_filter, List.filter_filter, Bool.and_comm]

end Counts

/-- The numbers are exact if and only if every pending or running row of the user has at most 100
    rows of the user that are as new, itself among them. -/
theorem counts_exact_iff (U : Unicode) (redisPool : Bool) (s : Tables) (u : Option Uuid) :
    CountsExact U s u ⟨true, redisPool⟩ ↔
      ∀ r ∈ userJobs s u, r.status = "pending" ∨ r.status = "running" →
      atLeast Job.createdAt (userJobs s u) r ≤ 100 := by
  have hscan : ∀ status : String, (∀ scan : Serial Job.id, scan.rows.Perm s.importJobs.rows →
      (JobRepository.listForUser { s with importJobs := scan } u 100 0).countP (·.status == status) =
        (userJobs s u).countP (·.status == status)) ↔
      ∀ r ∈ userJobs s u, (r.status == status) = true → atLeast Job.createdAt (userJobs s u) r ≤ 100 := by
    intro status
    rw [← countP_take_iff]
    exact forall_scan_iff fun out : List Job => (out.take 100).countP (·.status == status) =
      (userJobs s u).countP (·.status == status)
  have hpending := hscan "pending"
  have hrunning := hscan "running"
  simp only [beq_iff_eq] at hpending hrunning
  unfold CountsExact
  simp only [getQueueStatus_eq, count_status]
  constructor
  · intro h r hr hstatus
    rcases hstatus with hp | hr'
    · refine hpending.mp (fun scan hperm => ?_) r hr hp
      obtain ⟨status, he, hcount, -⟩ := h scan hperm
      cases he
      exact hcount
    · refine hrunning.mp (fun scan hperm => ?_) r hr hr'
      obtain ⟨status, he, -, hcount⟩ := h scan hperm
      cases he
      exact hcount
  · intro h scan hperm
    exact ⟨_, rfl, hpending.mpr (fun r hr hp => h r hr (Or.inl hp)) scan hperm,
      hrunning.mpr (fun r hr hp => h r hr (Or.inr hp)) scan hperm⟩

/-! ### A long history -/

def jobAt (id : Nat) (status : String) (createdAt : Int) : Job :=
  ⟨id, status, "b", "", "fs", "ds", 0, 0, 0, none, createdAt, none, none, none⟩

/-- A hundred jobs done since the first was queued. -/
def longHistory : Tables :=
  { fresh [] with
    importJobs := ⟨⟨jobAt 0 "pending" 0 :: (List.range 100).map fun i => jobAt (i + 1) "completed" (i + 1), by
      unfold UniqueBy
      decide +kernel⟩, 101, by decide +kernel⟩ }

theorem counts_not_exact : ¬CountsExact ⟨fun _ => none, fun _ => false⟩ longHistory none ⟨true, true⟩ := by
  intro h
  obtain ⟨status, he, hpending, -⟩ := h longHistory.importJobs (.refl _)
  rw [getQueueStatus_eq] at he
  cases he
  have hshown : (JobRepository.listForUser
      { longHistory with importJobs := longHistory.importJobs } none 100 0).countP
      (·.status == "pending") = 0 := by decide +kernel
  have hstored : longHistory.importJobs.count (fun r => ownedBy none r.userId && r.status == "pending") = 1 := by
    decide +kernel
  dsimp only at hpending
  rw [hshown, hstored] at hpending
  cases hpending

end Connect.Web
