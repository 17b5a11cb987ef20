/-
  Connect.Worker.Idempotency — `@idempotent` (services/idempotency.py) over the
  processed_jobs table (`ProcessedJobRepository.mark_processed`).

  A wrapped task reads ARQ's `ctx['job_id']`, inserts its processed_jobs row with ON
  CONFLICT DO NOTHING and commits, and runs the body only when the insert affected a row.
  When the body raises an `Exception`, a second transaction sets the row's result_status
  to 'failed' and the exception goes on. The body is any coroutine of any signature `B`
  that has no operation on processed_jobs; `enter` marks the moment the wrapper starts it.
-/

import Connect.Await.Rely
import Connect.Py

namespace Connect.Worker

open Await

structure ProcessedJob where
  workerId : Option String
  resultStatus : Option String
  deriving DecidableEq, Repr

inductive ProcessedOp where
  | markProcessed (jobId : String) (workerId resultStatus : Option String)
  | markFailed (jobId : String)
  /-- Not a database call: the body's coroutine is started. -/
  | enter (jobId : String)
  deriving DecidableEq, Repr

def ProcessedOp.Ret : ProcessedOp → Type
  | .markProcessed _ _ _ => Bool
  | .markFailed _ => Unit
  | .enter _ => Unit

abbrev processedSig : Sig := ⟨ProcessedOp, ProcessedOp.Ret⟩

abbrev Processed := String → Option ProcessedJob

def Processed.set (t : Processed) (jobId : String) (row : ProcessedJob) : Processed :=
  fun j => if j = jobId then some row else t j

/-- One statement with its commit; a call that raises leaves the table as it was. -/
def Processed.exec (t : Processed) : (o : ProcessedOp) → Except Exc o.Ret → Option Processed
  | .markProcessed jobId workerId resultStatus, .ok (inserted : Bool) =>
    match t jobId with
    | none => if inserted then some (t.set jobId ⟨workerId, resultStatus⟩) else none
    | some _ => if inserted then none else some t
  | .markFailed jobId, .ok _ =>
    match t jobId with
    | none => some t
    | some row => some (t.set jobId { row with resultStatus := some "failed" })
  | .enter _, .ok _ => some t
  | .enter _, .error _ => none
  | .markProcessed _ _ _, .error _ => some t
  | .markFailed _, .error _ => some t

/-- What a task sees of ARQ's `ctx` and of its worker's environment. -/
structure Ctx where
  jobId : Option String
  hostname : Option String
  podName : Option String
  redis : Bool
  deriving DecidableEq, Repr

variable {B : Sig} {R : Type}

abbrev TaskSig (B : Sig) : Sig := processedSig.sum B

def markProcessed (jobId : String) (workerId resultStatus : Option String) : Prog (TaskSig B) Exc Bool :=
  @Prog.left processedSig B Exc (ProcessedOp.markProcessed jobId workerId resultStatus)

def markFailed (jobId : String) : Prog (TaskSig B) Exc Unit :=
  @Prog.left processedSig B Exc (ProcessedOp.markFailed jobId)

def enter (jobId : String) : Prog (TaskSig B) Exc Unit := @Prog.left processedSig B Exc (ProcessedOp.enter jobId)

def idempotent (func : Prog B Exc R) (ctx : Ctx) : Prog (TaskSig B) Exc (Option R) :=
  match truthy ctx.jobId with
  | none => some <$> func.lift  -- job_id missing: run normally
  | some arqJobId => do
    let newlyProcessed ← markProcessed arqJobId (orElse ctx.hostname ctx.podName) none
    if newlyProcessed then
      enter arqJobId
      (some <$> func.lift).catching fun e =>
        if e.isException then do
          markFailed arqJobId
          .raise e
        else .raise e
    else
      return none

end Connect.Worker
