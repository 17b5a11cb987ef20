/-
  Connect.Sqs.Sweep — a whole sweep keeps what its queues keep.

  Around `poll_single_queue` a sweep awaits operations of `OuterOp` only. So a law whose
  process keeps `P` under those, and over the messages of each queue, keeps it from the
  acquire to the release, however the sweep ends.
-/

import Connect.Await.Rely
import Connect.Sqs.Poller

namespace Connect.Sqs

open Await

variable {W : Type} {Γ : Law W sqsSig Exc} {P : W → Prop} {room : Nat} {w : W}

/-- The law's process keeps `P` between its operations and under those of `O`. -/
structure Keeping (Γ : Law W sqsSig Exc) (O : SqsOp → Prop) (P : W → Prop) : Prop where
  rely : ∀ a b, Γ.rely a b → P a → P b
  op : ∀ w o r w', O o → P w → Γ.inv w → Γ.act w o r w' → Γ.guar w w' ∧ P w'

theorem Keeping.mono {O O' : SqsOp → Prop} (k : Keeping Γ O P) (h : ∀ o, O' o → O o) : Keeping Γ O' P :=
  ⟨k.rely, fun w o r w' ho => k.op w o r w' (h o ho)⟩

theorem Keeping.uses {O : SqsOp → Prop} (k : Keeping Γ O P) {α : Type} {p : SqsProg α} (hp : p.Uses O) (hw : P w) :
    wp Γ p (fun _ => P) w := wp_uses k.rely k.op hp hw

theorem wp_releasePollLock (k : Keeping Γ OuterOp P) (workerId : Nat) (hw : P w) :
    wp Γ (releasePollLock workerId) (fun _ => P) w := by
  refine k.uses (.catching (.await trivial) fun e => ?_) hw
  split <;> trivial

theorem wp_pollQueue (k : Keeping Γ OuterOp P)
    (hpoll : ∀ queue w, P w → wp Γ (pollSingleQueue room queue) (fun _ => P) w)
    (queue : SqsQueue) (sw : Sweep) (hw : P w) : wp Γ (pollQueue room queue sw) (fun _ => P) w := by
  have kq := k.mono quiet_outer
  refine wp_seq (wp_attempt.mpr (kq.uses (uses_sqsClient queue sw.sqsClients) hw)) (fun _ _ h => h) fun r w hw => ?_
  rcases r with e | _ | clients
  · exact kq.uses (uses_queueFailed _ _ _) hw
  · exact hw
  · refine wp_seq (wp_attempt.mpr (hpoll queue w hw)) (fun _ _ h => h) fun r w hw => ?_
    cases r with
    | error e => exact kq.uses (uses_queueFailed _ _ _) hw
    | ok n => exact kq.uses (uses_markPolled _ _) hw

theorem wp_pollQueues (k : Keeping Γ OuterOp P)
    (hpoll : ∀ queue w, P w → wp Γ (pollSingleQueue room queue) (fun _ => P) w)
    (queues : List SqsQueue) (sw : Sweep) (hw : P w) : wp Γ (pollQueues room queues sw) (fun _ => P) w := by
  induction queues generalizing sw w with
  | nil => exact hw
  | cons queue rest ih => exact wp_seq (wp_pollQueue k hpoll queue sw hw) (fun _ _ h => h) fun sw w hw => ih sw hw

theorem wp_sweep (k : Keeping Γ OuterOp P) (hpoll : ∀ queue w, P w → wp Γ (pollSingleQueue room queue) (fun _ => P) w)
    (hw : P w) : wp Γ (sweep room) (fun _ => P) w := by
  refine wp_seq (k.uses (.await rfl) hw) (fun _ _ h => h) fun (queues : List SqsQueue) w hw => ?_
  cases queues with
  | nil => exact hw
  | cons queue rest => exact wp_seq (wp_pollQueues k hpoll _ _ hw) (fun _ _ h => h) fun _ _ h => h

theorem wp_pollSqsQueues (k : Keeping Γ OuterOp P)
    (hpoll : ∀ queue w, P w → wp Γ (pollSingleQueue room queue) (fun _ => P) w) (workerId : Nat) (hw : P w) :
    wp Γ (pollSqsQueues room workerId) (fun _ => P) w := by
  refine wp_seq (k.uses (.await trivial) hw) (fun _ _ h => h) fun acquired w hw => ?_
  cases acquired with
  | false => exact hw
  | true =>
    have hrelease : ∀ w, P w → wp Γ (do let _ ← releasePollLock workerId; return () : SqsProg Unit) (fun _ => P) w :=
      fun w hw => wp_seq (wp_releasePollLock k workerId hw) (fun _ _ h => h) fun _ _ h => h
    refine wp_finally.mpr (wp_mono (fun x w hw => ?_) (wp_sweep k hpoll hw))
    cases x with
    | ok a => exact wp_mono (fun y w hw => by cases y <;> exact hw) (hrelease w hw)
    | error e => exact wp_mono (fun y w hw => by cases y <;> exact hw) (hrelease w hw)

end Connect.Sqs
