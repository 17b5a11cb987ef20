/-
  Connect.Worker.Settled — what the parts of `import_job` do to the job's row, whatever
  the other tasks do in between.

  The other tasks remove the row or make it terminal, or leave it (`others_kept`). An
  `update` has three ends (`exec_update`). A part of the body `Finishes` when it returns
  with the row settled, announces the completed job with the row settled, and otherwise
  raises with the row still running; the rules for a prefix, a status read and the final
  write give it for `_import_job_body`.
-/

import Connect.Await.Exec
import Connect.Worker.StatusMonotone

namespace Connect.Worker

open Await

/-! ## The other tasks -/

/-- What the tasks that are no delivery of the job, and the outside, may have done. -/
inductive OtherTasks (jobId : Nat) : Db → Db → Prop
  | refl (s : Db) : OtherTasks jobId s s
  | task {a b c : Db} {t : JobTask} {o : JobOp} {r : Except Exc o.Ret} : OtherTasks jobId a b →
      (∀ ctx, t ≠ .importJob ctx jobId) → TaskOp t o → b.exec o r = some c → OtherTasks jobId a c
  | env {a b c : Db} {e : JobEnv} : OtherTasks jobId a b → b.env e = some c → OtherTasks jobId a c

/-- The job's row is terminal, or gone. -/
def Settled (jobId : Nat) (s : Db) : Prop := ∀ row, s.jobs jobId = some row → row.status.terminal = true

def Running (jobId : Nat) (s : Db) : Prop := ∃ row, s.jobs jobId = some row ∧ row.status = .running

theorem running_not_settled {jobId : Nat} {s : Db} (h : Running jobId s) : ¬ Settled jobId s := by
  obtain ⟨row, hr, hst⟩ := h
  intro he
  have := he row hr
  rw [hst] at this
  cases this

theorem did_nextId {s s' : Db} {o : JobOp} {r : Except Exc o.Ret} (h : Did s o r s') : s.nextId ≤ s'.nextId := by
  cases h with
  | created hid => exact Nat.le_succ_of_le hid
  | flushed => split <;> exact Nat.le_refl _
  | cancelled | timedOut | deleted | cleared | enqueued | got | loaded | missed | raised | answered =>
    exact Nat.le_refl _

/-- The row may be removed or made terminal; otherwise it is as before. -/
def RowKept (jobId : Nat) (a b : Db) : Prop :=
  ∀ row', b.jobs jobId = some row' → ∃ row, a.jobs jobId = some row ∧ (row' = row ∨ row'.status.terminal = true)

theorem rowKept_same {jobId : Nat} {a b : Db} (h : b.jobs = a.jobs) : RowKept jobId a b := by
  intro row' hr
  rw [h] at hr
  exact ⟨row', hr, Or.inl rfl⟩

theorem RowKept.trans {jobId : Nat} {a b c : Db} (h : RowKept jobId a b) (h' : RowKept jobId b c) :
    RowKept jobId a c := by
  intro row₂ h₂
  obtain ⟨row₁, h₁, rfl | ht⟩ := h' row₂ h₂
  · exact h row₂ h₁
  · obtain ⟨row, hr, _⟩ := h row₁ h₁
    exact ⟨row, hr, Or.inr ht⟩

/-- A delivery of another job flushes another row. -/
theorem flush_elsewhere {jobId i : Nat} {t : JobTask} {loaded : Job} {fields : JobFields}
    (ht : ∀ ctx, t ≠ .importJob ctx jobId) (h : TaskOp t (.flushJob i loaded fields)) : i ≠ jobId := by
  cases t with
  | importJob ctx j =>
    rcases h with h | ⟨_, _, h⟩
    · intro h
      subst h
      exact ht ctx (by rw [h.1])
    · cases h
  | addJob => rcases h with h | ⟨_, h⟩ <;> cases h
  | timeoutStaleJobs => rcases h with h | ⟨_, h⟩ | ⟨_, h⟩ <;> cases h
  | cancelJob | deleteJob | clearJobs => cases h

/-- What an operation of another task does to the row: nothing, a cancellation, or the time-out of a running job. -/
inductive OtherWrite (row : Job) : Job → Prop
  | left : OtherWrite row row
  | cancelled : OtherWrite row { row with status := .cancelled }
  | timedOut : row.status = .running → OtherWrite row { row with status := .failed, errorMessage := some "timed out" }

theorem did_otherWrite {jobId : Nat} {s s' : Db} {t : JobTask} {o : JobOp} {r : Except Exc o.Ret} (h : Did s o r s')
    (ht : ∀ ctx, t ≠ .importJob ctx jobId) (ho : TaskOp t o) (hi : jobId < s.nextId) :
    ∀ row', s'.jobs jobId = some row' → ∃ row, s.jobs jobId = some row ∧ OtherWrite row row' := by
  intro row' hr
  cases h with
  | @created _ _ _ _ _ id hid =>
    have hne : jobId ≠ id := by omega
    rw [put_jobs, upd_ne _ _ hne] at hr
    exact ⟨row', hr, .left⟩
  | @flushed i loaded current fields hc =>
    have hne := flush_elsewhere ht ho
    rw [flush_jobs _ hc, upd_ne _ _ (Ne.symm hne)] at hr
    exact ⟨row', hr, .left⟩
  | @cancelled i _ row hc _ =>
    rw [put_jobs] at hr
    by_cases e : jobId = i
    · subst e
      rw [upd_same] at hr
      cases hr
      exact ⟨row, hc, .cancelled⟩
    · rw [upd_ne _ _ e] at hr
      exact ⟨row', hr, .left⟩
  | timedOut =>
    obtain ⟨row, hrow, rfl⟩ := Option.map_eq_some_iff.mp hr
    refine ⟨row, hrow, ?_⟩
    split
    · rename_i hstale
      exact .timedOut (by simpa using (Bool.and_eq_true_iff.mp hstale).1)
    · exact .left
  | deleted | cleared => exact ⟨row', Option.eq_some_of_filter_eq_some hr, .left⟩
  | enqueued | got | loaded | missed | raised | answered => exact ⟨row', hr, .left⟩

theorem did_rowKept {jobId : Nat} {s s' : Db} {t : JobTask} {o : JobOp} {r : Except Exc o.Ret} (h : Did s o r s')
    (ht : ∀ ctx, t ≠ .importJob ctx jobId) (ho : TaskOp t o) (hi : jobId < s.nextId) : RowKept jobId s s' := by
  intro row' hr
  obtain ⟨row, hrow, hw⟩ := did_otherWrite h ht ho hi row' hr
  refine ⟨row, hrow, ?_⟩
  cases hw with
  | left => exact Or.inl rfl
  | cancelled | timedOut => exact Or.inr rfl

theorem others_kept {jobId : Nat} {a b : Db} (h : OtherTasks jobId a b) (hi : jobId < a.nextId) :
    jobId < b.nextId ∧ RowKept jobId a b := by
  induction h with
  | refl => exact ⟨hi, rowKept_same rfl⟩
  | task _ ht ho hx ih =>
    obtain ⟨hlt, hk⟩ := ih
    have hd := exec_did hx
    exact ⟨Nat.lt_of_lt_of_le hlt (did_nextId hd), hk.trans (did_rowKept hd ht ho hlt)⟩
  | env _ hx ih =>
    obtain ⟨hlt, hk⟩ := ih
    obtain ⟨hj, hn, _⟩ := env_jobs hx
    exact ⟨by omega, hk.trans (rowKept_same hj)⟩

theorem RowKept.settled {jobId : Nat} {a b : Db} (h : RowKept jobId a b) (he : Settled jobId a) :
    Settled jobId b := by
  intro row' hr
  obtain ⟨row, hrow, rfl | ht⟩ := h row' hr
  · exact he row' hrow
  · exact ht

/-! ## Calls -/

/-- The line that announces the completed job. -/
def Completes : JobOp → Prop
  | .publish (.complete _ _ _) => True
  | _ => False

/-- The lines published outside the `try`, and in the handler. -/
def Announces : JobOp → Prop
  | .publish (.started _) | .publish (.failed _) => True
  | _ => False

/-- A statement of the final `update` of the handler. -/
def WritesFailed : JobOp → Prop
  | .loadJob _ fields | .flushJob _ _ fields => fields.status = some .failed
  | _ => False

/-- A call of the body before it writes `completed`. -/
def RunOp (jobId : Nat) : JobOp → Prop
  | .flushJob i _ fields => i = jobId ∧ fields.status = some .running
  | .loadJob _ fields => fields.status = some .running
  | .publish (.complete _ _ _) | .publish (.started _) | .publish (.failed _) | .close => False
  | .createJob _ _ _ _ _ | .cancelJob _ _ | .timeoutStale _ | .deleteForUser _ _ | .clearCompletedForUser _
  | .enqueueJob _ => False
  | _ => True

/-- A call of the body. -/
def BodyStep (o : JobOp) : Prop := ¬ Announces o ∧ o ≠ .close ∧ ¬ WritesFailed o

theorem runOp_body {jobId : Nat} (o : JobOp) (h : RunOp jobId o) : BodyStep o := by
  cases o with
  | publish line => cases line <;> first | exact h.elim | exact ⟨id, nofun, id⟩
  | flushJob i loaded fields => exact ⟨id, nofun, fun hf => by rw [WritesFailed, h.2] at hf; cases hf⟩
  | loadJob i fields =>
    exact ⟨id, nofun, fun hf => by rw [WritesFailed, show fields.status = _ from h] at hf; cases hf⟩
  | close => exact h.elim
  | _ => exact ⟨id, nofun, id⟩

theorem runOp_complete {jobId : Nat} {o : JobOp} (h : RunOp jobId o) : ¬ Completes o := by
  cases o with
  | publish line => cases line <;> first | exact id | exact h.elim
  | _ => exact id

abbrev JobCall := Call jobSig Exc

/-- An exception that no handler turns into `failed`: a cancellation, or one raised by an
    announcement. -/
def Interrupts (call : JobCall) : Prop :=
  (call.ans = .error .cancelled ∧ call.op ≠ .close) ∨ (call.raised = true ∧ Announces call.op)

/-- It came before `completed` was written; after it only the final line is published. -/
def Interrupted (calls : List JobCall) : Prop :=
  (∃ call ∈ calls, Interrupts call) ∧ ∀ call ∈ calls, call.raised = true → ¬ Completes call.op

/-- The database accepts the final write of the status. -/
def Accepted (calls : List JobCall) : Prop := ∀ call ∈ calls, call.raised = true → ¬ WritesFailed call.op

/-- `import_job` has written `running`. -/
def WroteRunning (jobId : Nat) (calls : List JobCall) : Prop :=
  ∃ call ∈ calls, call.raised = false ∧ ∃ row fields, call.op = .flushJob jobId row fields ∧
    fields.status = some .running

/-! ## Pieces of an execution -/

section Pieces

variable {R : Db → Db → Prop} {pid jobId : Nat} {ctx : Ctx} {α : Type} {s s' : Db} {calls : List JobCall}

abbrev JobExec (R : Db → Db → Prop) (pid : Nat) (p : JobProg α) (s : Db) (calls : List JobCall)
    (x : Except Exc α) (s' : Db) : Prop :=
  Exec jobs R pid p s calls x s'

/-- The row is settled, and no other task can reuse its id. -/
def Closed (jobId : Nat) (s : Db) : Prop := jobId < s.nextId ∧ Settled jobId s

/-- A line that is always taken. -/
theorem yields_publishLog {A : (o : JobOp) → Except Exc o.Ret → Prop}
    (hA : ∀ line r, A (.publish line) r → ∃ v, r = .ok v)
    (line : LogLine) : Yields A (fun _ => True) (publishLog ctx line) := by
  unfold publishLog
  split
  · exact .returns (hA line)
  · trivial

theorem yields_update {A : (o : JobOp) → Except Exc o.Ret → Prop}
    (hload : ∀ fields r, A (.loadJob jobId fields) r → ∃ v, r = .ok v)
    (hflush : ∀ row fields r, A (.flushJob jobId row fields) r → ∃ v, r = .ok v) (fields : JobFields) :
    Yields A (fun _ => True) (update jobId fields) := by
  refine .bind (.returns (hload fields)) fun row _ => ?_
  cases row with
  | none => trivial
  | some loaded => exact .bind (.returns (hflush loaded fields)) fun _ _ => trivial

theorem jobs_did {pid : Nat} {a b : Db} {o : JobOp} {r : Except Exc o.Ret}
    (h : jobs.exec pid a o r = some b) : Did a o r b :=
  exec_did h

/-- The three ends of an `update`: a statement raised, the row was gone, or it was written. -/
inductive Updated (R : Db → Db → Prop) (jobId : Nat) (fields : JobFields) (s : Db) :
    List JobCall → Except Exc (Option Job) → Db → Prop
  | loadRaised {a b : Db} {e : Exc} :
      R s a → R a b → Updated R jobId fields s [⟨.loadJob jobId fields, .error e⟩] (.error e) b
  | gone {a b : Db} : R s a → a.jobs jobId = none → R a b →
      Updated R jobId fields s [⟨.loadJob jobId fields, .ok (none : Option Job)⟩] (.ok none) b
  | flushRaised {a b c : Db} {loaded : Job} {e : Exc} : R s a → R a b → R b c →
      Updated R jobId fields s
        [⟨.loadJob jobId fields, .ok (some loaded)⟩, ⟨.flushJob jobId loaded fields, .error e⟩] (.error e) c
  | wrote {a b c d : Db} {loaded current row : Job} : R s a → a.jobs jobId = some loaded → R a b →
      b.jobs jobId = some current →
      c.jobs = upd b.jobs jobId (some ((fields.differing loaded).apply current)) → c.nextId = b.nextId → R c d →
      Updated R jobId fields s
        [⟨.loadJob jobId fields, .ok (some loaded)⟩, ⟨.flushJob jobId loaded fields, .ok row⟩] (.ok (some row)) d

theorem load_did {fields : JobFields} {row : Option Job} {a b : Db} (h : Did a (.loadJob jobId fields) (.ok row) b) :
    a.jobs jobId = row ∧ b = a := by
  cases h with
  | loaded => exact ⟨rfl, rfl⟩
  | answered h => exact h.elim

theorem flush_did {fields : JobFields} {loaded row : Job} {a b : Db}
    (h : Did a (.flushJob jobId loaded fields) (.ok row) b) :
    ∃ current, a.jobs jobId = some current ∧
    b.jobs = upd a.jobs jobId (some ((fields.differing loaded).apply current)) ∧
      b.nextId = a.nextId := by
  cases h with
  | flushed hc => exact ⟨_, hc, flush_jobs _ hc, by split <;> rfl⟩
  | answered h => exact h.elim

theorem raised_did {o : JobOp} {e : Exc} {a b : Db} (h : Did a o (.error e) b) : b = a := by
  cases h with
  | raised | answered => rfl

theorem exec_update {fields : JobFields} {x : Except Exc (Option Job)}
    (h : JobExec R pid (update jobId fields) s calls x s') :
    Updated R jobId fields s calls x s' := by
  obtain ⟨a, r, a', rest, hr, hx, rfl, hk⟩ := h
  rcases r with e | row
  · obtain ⟨rfl, rfl, hr'⟩ := hk
    rw [raised_did (jobs_did hx)] at hr'
    exact .loadRaised hr hr'
  · obtain ⟨hl, rfl⟩ := load_did (jobs_did hx)
    cases row with
    | none =>
      obtain ⟨rfl, rfl, hr'⟩ := hk
      exact .gone hr hl hr'
    | some loaded =>
      obtain ⟨b, r, b', rest, hr₂, hx₂, rfl, hk⟩ := hk
      rcases r with e | row
      · obtain ⟨rfl, rfl, hr'⟩ := hk
        rw [raised_did (jobs_did hx₂)] at hr'
        exact .flushRaised hr hr₂ hr'
      · obtain ⟨rfl, rfl, hr'⟩ := hk
        obtain ⟨current, hc, hj, hn⟩ := flush_did (jobs_did hx₂)
        exact .wrote hr hl hr₂ hc hj hn hr'

variable (hR : ∀ a b, R a b → OtherTasks jobId a b)

include hR

theorem exec_known {p : JobProg α} {x : Except Exc α} (h : JobExec R pid p s calls x s') (hi : jobId < s.nextId) :
    jobId < s'.nextId :=
  exec_keeps (I := fun s : Db => jobId < s.nextId) (fun a b ha hab => (others_kept (hR a b hab) ha).1)
    (fun _ _ _ _ _ ha hx => Nat.lt_of_lt_of_le ha (did_nextId (jobs_did hx))) p.uses_all h hi

theorem closed_other {a b : Db} (hab : R a b) (h : Closed jobId a) : Closed jobId b :=
  ⟨(others_kept (hR a b hab) h.1).1, (others_kept (hR a b hab) h.1).2.settled h.2⟩

theorem exec_closed {p : JobProg α} {x : Except Exc α} (hp : p.Uses JobOp.outside) (h : JobExec R pid p s calls x s')
    (hc : Closed jobId s) : Closed jobId s' := by
  refine exec_keeps (I := Closed jobId) (fun a b ha hab => closed_other hR hab ha)
    (fun a b o r ho ha hx => ?_) hp h hc
  cases jobs_did hx with
  | raised | answered => exact ha
  | _ => exact ho.elim

theorem update_settles {st : Status} {fields : JobFields} {row : Option Job} (hst : st.terminal = true)
    (h : JobExec R pid (updateStatus jobId st fields) s calls (.ok row) s') (hi : jobId < s.nextId) :
    Closed jobId s' := by
  cases exec_update h with
  | gone hr hn hr' =>
    refine closed_other hR hr' ⟨(others_kept (hR _ _ hr) hi).1, fun row hrow => ?_⟩
    rw [hn] at hrow
    cases hrow
  | @wrote a b c d loaded current _ hr hl hr₂ hc hj hn hr' =>
    have ha := (others_kept (hR _ _ hr) hi).1
    obtain ⟨hb, hk⟩ := others_kept (hR _ _ hr₂) ha
    refine closed_other hR hr' ⟨by omega, fun row hrow => ?_⟩
    rw [hj, upd_same] at hrow
    cases hrow
    rw [flush_status (w := st) _ _ rfl]
    split
    · rename_i he
      obtain ⟨row, hrow, rfl | ht⟩ := hk current hc
      · rw [hl] at hrow
        cases hrow
        rw [← he]
        exact hst
      · exact ht
    · exact hst

/-! ## The row stays running -/

omit hR

/-- No other task touches the row. -/
def Quiet (R : Db → Db → Prop) (jobId : Nat) : Prop := ∀ a b, R a b → b.jobs jobId = a.jobs jobId

theorem running_other {a b : Db} (hq : Quiet R jobId) (hab : R a b) (h : Running jobId a) : Running jobId b := by
  obtain ⟨row, hr, hst⟩ := h
  exact ⟨row, by rw [hq a b hab, hr], hst⟩

/-- A call that writes no status but `running`. -/
def KeepsRunning (jobId : Nat) (o : JobOp) : Prop := RunOp jobId o ∨ o.outside

theorem exec_running {p : JobProg α} {x : Except Exc α} (hq : Quiet R jobId) (hp : p.Uses (KeepsRunning jobId))
    (h : JobExec R pid p s calls x s') (hr : Running jobId s) : Running jobId s' := by
  refine exec_keeps (I := Running jobId) (fun a b ha hab => running_other hq hab ha)
    (fun a b o r ho ha hx => ?_) hp h hr
  cases jobs_did hx with
  | @flushed i loaded current fields hc =>
    rcases ho with ⟨rfl, hf⟩ | ho
    · obtain ⟨row, hrow, hst⟩ := ha
      rw [hrow] at hc
      cases hc
      refine ⟨(fields.differing loaded).apply current, by rw [flush_jobs _ hrow, upd_same], ?_⟩
      rw [flush_status _ _ hf]
      split
      · exact hst
      · rfl
    · exact ho.elim
  | got | loaded | raised | answered => exact ha
  | enqueued | created | cancelled | missed | timedOut | deleted | cleared => rcases ho with h | h <;> exact h.elim

/-! ## A part of the body up to its end -/

structure Finishes (R : Db → Db → Prop) (pid jobId : Nat) (p : JobProg JobResult) : Prop where
  /-- It returns with the row settled. -/
  returns : ∀ {s s' calls v}, JobExec R pid p s calls (.ok v) s' → jobId < s.nextId → Closed jobId s'
  /-- It announces the completed job with the row settled. -/
  completes : ∀ {s s' calls x}, JobExec R pid p s calls x s' → jobId < s.nextId →
    (∃ call ∈ calls, Completes call.op) → Closed jobId s'
  /-- It raises with the row running, unless the announcement raised. -/
  raises : ∀ {s s' calls e}, Quiet R jobId → JobExec R pid p s calls (.error e) s' → jobId < s.nextId →
    (∀ call ∈ calls, call.raised = true → ¬ Completes call.op) → Running jobId s → Running jobId s'

variable (hrefl : ∀ s, R s s)

include hR hrefl

theorem Finishes.bind {p : JobProg α} {f : α → JobProg JobResult} (hp : p.Uses (RunOp jobId))
    (hf : ∀ a, Finishes R pid jobId (f a)) : Finishes R pid jobId (p.bind f) where
  returns h hi := by
    obtain ⟨a, s₁, first, rest, rfl, h₁, h₂⟩ := exec_bind_ok hrefl h
    exact (hf a).returns h₂ (exec_known hR h₁ hi)
  completes h hi hc := by
    rcases exec_bind hrefl h with ⟨e, _, h₁⟩ | ⟨a, s₁, first, rest, rfl, h₁, h₂⟩
    · obtain ⟨call, hm, hcall⟩ := hc
      exact absurd hcall (runOp_complete (exec_uses hp h₁ call hm))
    · refine (hf a).completes h₂ (exec_known hR h₁ hi) ?_
      obtain ⟨call, hm, hcall⟩ := hc
      rcases List.mem_append.mp hm with hm | hm
      · exact absurd hcall (runOp_complete (exec_uses hp h₁ call hm))
      · exact ⟨call, hm, hcall⟩
  raises hq h hi hc hr := by
    have hkeep := hp.mono fun o ho => (Or.inl ho : KeepsRunning jobId o)
    rcases exec_bind hrefl h with ⟨e, _, h₁⟩ | ⟨a, s₁, first, rest, rfl, h₁, h₂⟩
    · exact exec_running hq hkeep h₁ hr
    · exact (hf a).raises hq h₂ (exec_known hR h₁ hi) (fun call hm => hc call (List.mem_append_right _ hm))
        (exec_running hq hkeep h₁ hr)

omit hR hrefl in
theorem getJob_did {i : Nat} {row : Option Job} {a b : Db} (h : Did a (.getJob i) (.ok row) b) :
    a.jobs i = row ∧ b = a := by
  cases h with
  | got => exact ⟨rfl, rfl⟩
  | answered h => exact h.elim

omit hR hrefl in
theorem closed_cancelled {a : Db} {row : Option Job} (hi : jobId < a.nextId) (ha : a.jobs jobId = row)
    (hc : isCancelled row = true) : Closed jobId a := by
  refine ⟨hi, fun row' hr => ?_⟩
  rw [← ha, hr] at hc
  have hst : row'.status = .cancelled := by simpa [isCancelled] using hc
  rw [hst]
  rfl

omit hrefl in
/-- The row is read: cancelled, it is left as it is. -/
theorem Finishes.read {line : LogLine} (hline : ¬ Completes (.publish line)) {v : JobResult} {q : JobProg JobResult}
    (hq : Finishes R pid jobId q) :
    Finishes R pid jobId ((getJob jobId).bind fun current =>
      if isCancelled current then (publishLog ctx line).bind fun _ => .ret v else q) := by
  have hlog : Prog.Uses (fun o : JobOp => o.outside ∧ ¬ Completes o)
      ((publishLog ctx line).bind fun _ => (.ret v : JobProg JobResult)) :=
      .bind (uses_publishLog ⟨trivial, hline⟩) fun _ => trivial
  have hread : ∀ {s s' calls x}, JobExec R pid ((getJob jobId).bind fun current =>
        if isCancelled current then (publishLog ctx line).bind fun _ => .ret v else q) s calls x s' →
          jobId < s.nextId →
      (∃ a e, R s a ∧ R a s' ∧ x = .error e ∧ calls = [⟨.getJob jobId, .error e⟩]) ∨
      (∃ a row rest, R s a ∧ calls = ⟨.getJob jobId, .ok row⟩ :: rest ∧ Closed jobId a ∧
        JobExec R pid ((publishLog ctx line).bind fun _ => (.ret v : JobProg JobResult)) a rest x s') ∨
      ∃ a row rest, R s a ∧ calls = ⟨.getJob jobId, .ok row⟩ :: rest ∧ jobId < a.nextId ∧
      JobExec R pid q a rest x s' := by
    intro s s' calls x h hi
    obtain ⟨a, r, a', rest, hr, hx, rfl, hk⟩ := h
    have ha := (others_kept (hR _ _ hr) hi).1
    rcases r with e | row
    · obtain ⟨rfl, rfl, hr'⟩ := hk
      rw [raised_did (jobs_did hx)] at hr'
      exact Or.inl ⟨a, e, hr, hr', rfl, rfl⟩
    · obtain ⟨hrow, rfl⟩ := getJob_did (jobs_did hx)
      by_cases hc : isCancelled row = true
      · simp only [Prog.bind, hc, if_true] at hk
        exact Or.inr (Or.inl ⟨a', row, rest, hr, rfl, closed_cancelled ha hrow hc, hk⟩)
      · simp only [Prog.bind, hc] at hk
        exact Or.inr (Or.inr ⟨a', row, rest, hr, rfl, ha, hk⟩)
  constructor
  · intro s s' calls v' h hi
    rcases hread h hi with ⟨_, _, _, _, hx, _⟩ | ⟨a, row, rest, _, rfl, hc, h₂⟩ | ⟨a, row, rest, _, rfl, ha, h₂⟩
    · cases hx
    · exact exec_closed hR (hlog.mono fun _ h => h.1) h₂ hc
    · exact hq.returns h₂ ha
  · intro s s' calls x h hi hcomp
    rcases hread h hi with ⟨_, _, _, _, _, rfl⟩ | ⟨a, row, rest, _, rfl, hc, h₂⟩ | ⟨a, row, rest, _, rfl, ha, h₂⟩
    · obtain ⟨call, hm, hcall⟩ := hcomp
      cases List.mem_singleton.mp hm
      exact hcall.elim
    · exact exec_closed hR (hlog.mono fun _ h => h.1) h₂ hc
    · refine hq.completes h₂ ha ?_
      obtain ⟨call, hm, hcall⟩ := hcomp
      rcases List.mem_cons.mp hm with rfl | hm
      · exact hcall.elim
      · exact ⟨call, hm, hcall⟩
  · intro s s' calls e hq' h hi hcomp hrun
    rcases hread h hi with ⟨a, e, hr, hr', _, _⟩ | ⟨a, row, rest, hr, rfl, _, h₂⟩ | ⟨a, row, rest, hr, rfl, ha, h₂⟩
    · exact running_other hq' hr' (running_other hq' hr hrun)
    · exact exec_running hq' (hlog.mono fun o h => (Or.inr h.1 : KeepsRunning jobId o)) h₂ (running_other hq' hr hrun)
    · exact hq.raises hq' h₂ ha (fun call hm => hcomp call (List.mem_cons_of_mem _ hm)) (running_other hq' hr hrun)

/-- `completed` is written, and announced at most. -/
theorem Finishes.write {fields : JobFields} {g : JobProg JobResult} (hg : g.Uses Completes) (hb : Bare g) :
    Finishes R pid jobId ((updateStatus jobId .completed fields).bind fun _ => g) := by
  have hout : g.Uses JobOp.outside := hg.mono fun o h => by
    cases o with
    | publish => trivial
    | _ => exact h.elim
  have hsilent : ∀ {s s' calls x}, JobExec R pid (updateStatus jobId .completed fields) s calls x s' →
      ∀ call ∈ calls, ¬ Completes call.op := by
    intro s s' calls x h call hm
    cases exec_update h with
    | loadRaised | gone => cases List.mem_singleton.mp hm; exact id
    | flushRaised | wrote =>
      rcases List.mem_cons.mp hm with rfl | hm
      · exact id
      · cases List.mem_singleton.mp hm; exact id
  constructor
  · intro s s' calls v h hi
    obtain ⟨row, s₁, first, rest, rfl, h₁, h₂⟩ := exec_bind_ok hrefl h
    exact exec_closed hR hout h₂ (update_settles hR rfl h₁ hi)
  · intro s s' calls x h hi hcomp
    rcases exec_bind hrefl h with ⟨e, _, h₁⟩ | ⟨row, s₁, first, rest, rfl, h₁, h₂⟩
    · obtain ⟨call, hm, hcall⟩ := hcomp
      exact absurd hcall (hsilent h₁ call hm)
    · exact exec_closed hR hout h₂ (update_settles hR rfl h₁ hi)
  · intro s s' calls e hq h hi hcomp hrun
    rcases exec_bind hrefl h with ⟨e, _, h₁⟩ | ⟨row, s₁, first, rest, rfl, h₁, h₂⟩
    · cases exec_update h₁ with
      | loadRaised hr hr' => exact running_other hq hr' (running_other hq hr hrun)
      | flushRaised hr hr₂ hr' => exact running_other hq hr' (running_other hq hr₂ (running_other hq hr hrun))
    · obtain ⟨first', last, rfl, hraised, _⟩ := (hb.ends h₂).2 e rfl
      have hlast : last ∈ first ++ (first' ++ [last]) :=
        List.mem_append_right _ (List.mem_append_right _ (List.mem_singleton.mpr rfl))
      exact absurd (exec_uses hg h₂ last (List.mem_append_right _ (List.mem_singleton.mpr rfl)))
        (hcomp last hlast hraised)

omit hR hrefl

/-! ## The calls of the body -/

theorem bare_publishLog (line : LogLine) : Bare (publishLog ctx line) := by
  unfold publishLog
  split
  · exact .await _
  · trivial

theorem bare_update (fields : JobFields) : Bare (update jobId fields) := by
  refine .bind (.await _) fun row => ?_
  cases row with
  | none => trivial
  | some loaded => exact .bind (.await _) fun _ => trivial

theorem runs_update {st : Status} {fields : JobFields} (hst : st = .running) :
    (updateStatus jobId st fields).Uses (RunOp jobId) := by
  subst hst
  refine .bind (.await rfl) fun row => ?_
  cases row with
  | none => trivial
  | some loaded => exact .bind (.await ⟨rfl, rfl⟩) fun _ => trivial

theorem runs_runBatch (bucketName : String) (batch : List String) :
    (runBatch bucketName batch).Uses (RunOp jobId) := by
  refine uses_gather fun p hp => ?_
  obtain ⟨key, _, rfl⟩ := List.mem_map.mp hp
  exact .await trivial

theorem runs_batchLoop (bucketName : String) (keys : List String) (is : List Nat) (p : Progress) :
    (batchLoop ctx jobId bucketName keys is p).Uses (RunOp jobId) := by
  induction is generalizing p with
  | nil => trivial
  | cons i is ih =>
    refine .bind (.await trivial) fun current => ?_
    split
    · trivial
    · refine .bind (runs_runBatch bucketName _) fun results => .bind (uses_publishLog trivial) fun _ => ?_
      exact .bind (runs_update rfl) fun _ => .bind (.await trivial) fun _ => ih _

theorem runs_createFolders (ds : List String) : (createFolders ctx ds).Uses (RunOp jobId) := by
  induction ds with
  | nil => trivial
  | cons d ds ih =>
    refine .bind (.await trivial) fun result => .bind ?_ fun _ => ih
    obtain ⟨_ | _, error⟩ := result
    · exact uses_publishLog trivial
    · trivial

theorem runs_resolveCredentials (job : JobDict) : (resolveCredentials job).Uses (RunOp jobId) := by
  refine .bind ?_ fun token => .bind ?_ fun token => ?_
  · cases job.userId with
    | none => trivial
    | some userId => exact .await trivial
  · unfold orLegacyToken
    split
    · trivial
    · cases job.userId with
      | none => exact .await trivial
      | some userId => exact .await trivial
  · cases truthy token with
    | none => trivial
    | some token =>
      refine .bind (.await trivial) fun dsCred => .bind ?_ fun apiHost => ?_
      · cases job.userId with
        | none => trivial
        | some userId => exact .await trivial
      · cases dsCred <;> trivial

theorem prompt_publishLog (line : LogLine) : Prompt .cancelled (publishLog ctx line) := (bare_publishLog line).prompt

theorem prompt_update (fields : JobFields) : Prompt .cancelled (update jobId fields) := (bare_update fields).prompt

theorem prompt_gather {β : Type} {ps : List (JobProg β)} (h : ∀ p ∈ ps, Prompt .cancelled p) :
    Prompt .cancelled (gather ps) := by
  induction ps with
  | nil => trivial
  | cons p ps ih =>
    refine Prompt.attempt (h p List.mem_cons_self) rfl fun r hr => ?_
    have hrest : ∀ r, Prompt .cancelled (gather ps >>= fun rs => pure (r :: rs)) := fun r =>
      .bind (ih fun q hq => h q (List.mem_cons_of_mem _ hq)) fun _ => trivial
    rcases r with (_ | _ | _) | _
    · exact hrest _
    · exact hrest _
    · exact absurd rfl hr
    · exact hrest _

theorem prompt_batchLoop (bucketName : String) (keys : List String) (is : List Nat) (p : Progress) :
    Prompt .cancelled (batchLoop ctx jobId bucketName keys is p) := by
  induction is generalizing p with
  | nil => trivial
  | cons i is ih =>
    refine .bind (.await _) fun current => ?_
    split
    · trivial
    · refine .bind (prompt_gather fun p hp => ?_) fun results => .bind (prompt_publishLog _) fun _ => ?_
      · obtain ⟨key, _, rfl⟩ := List.mem_map.mp hp
        exact .await _
      · exact .bind (prompt_update _) fun _ => .bind (.await _) fun _ => ih _

theorem prompt_createFolders (ds : List String) : Prompt .cancelled (createFolders ctx ds) := by
  induction ds with
  | nil => trivial
  | cons d ds ih =>
    refine .bind (.await _) fun result => .bind ?_ fun _ => ih
    obtain ⟨_ | _, error⟩ := result
    · exact prompt_publishLog _
    · trivial

theorem prompt_finishJob (total : Nat) (p : Progress) : Prompt .cancelled (finishJob ctx jobId total p) := by
  refine .bind (.await _) fun current => ?_
  split
  · exact .bind (prompt_publishLog _) fun _ => trivial
  · exact .bind (prompt_update _) fun _ => .bind (prompt_publishLog _) fun _ => trivial

theorem prompt_importJobBody (job : JobDict) (r : Resolved) : Prompt .cancelled (importJobBody ctx job jobId r) := by
  refine .bind (.await _) fun _ => .bind (prompt_publishLog _) fun _ => .bind (prompt_publishLog _) fun _ => ?_
  refine .bind (.await _) fun keys => ?_
  split
  · exact .bind (prompt_publishLog _) fun _ => .bind (prompt_update _) fun _ => trivial
  · refine .bind (prompt_update _) fun _ => .bind (prompt_publishLog _) fun _ => .bind (prompt_publishLog _)
      fun _ => ?_
    refine .bind (prompt_createFolders _) fun _ => .bind (.await _) fun current => ?_
    split
    · exact .bind (prompt_publishLog _) fun _ => trivial
    · exact .bind (prompt_publishLog _) fun _ => .bind (prompt_batchLoop _ _ _ _) fun p => prompt_finishJob _ p

theorem prompt_resolveCredentials (job : JobDict) : Prompt .cancelled (resolveCredentials job) := by
  refine .bind ?_ fun token => .bind ?_ fun token => ?_
  · cases job.userId with
    | none => trivial
    | some userId => exact .await _
  · unfold orLegacyToken
    split
    · trivial
    · cases job.userId with
      | none => exact .await _
      | some userId => exact .await _
  · cases truthy token with
    | none => exact nofun
    | some token =>
      refine .bind (.await _) fun dsCred => .bind ?_ fun apiHost => ?_
      · cases job.userId with
        | none => trivial
        | some userId => exact .await _
      · cases dsCred with
        | none => exact nofun
        | some dsCred => trivial

include hR hrefl

theorem finishes_finishJob (total : Nat) (p : Progress) : Finishes R pid jobId (finishJob ctx jobId total p) := by
  refine Finishes.read hR id (Finishes.write hR hrefl ?_ ?_)
  · exact .bind (uses_publishLog trivial) fun _ => trivial
  · exact .bind (bare_publishLog _) fun _ => trivial

theorem finishes_importJobBody (job : JobDict) (r : Resolved) :
    Finishes R pid jobId (importJobBody ctx job jobId r) := by
  refine .bind hR hrefl (.await trivial) fun _ => .bind hR hrefl (uses_publishLog trivial) fun _ => ?_
  refine .bind hR hrefl (uses_publishLog trivial) fun _ => .bind hR hrefl (.await trivial) fun keys => ?_
  split
  · exact .bind hR hrefl (uses_publishLog trivial) fun _ => Finishes.write hR hrefl trivial trivial
  · refine .bind hR hrefl (runs_update rfl) fun _ => .bind hR hrefl (uses_publishLog trivial) fun _ => ?_
    refine .bind hR hrefl (uses_publishLog trivial) fun _ => .bind hR hrefl (runs_createFolders _) fun _ => ?_
    refine Finishes.read hR id (.bind hR hrefl (uses_publishLog trivial) fun _ => ?_)
    exact .bind hR hrefl (runs_batchLoop _ _ _ _) fun p => finishes_finishJob hR hrefl _ p

omit hR hrefl

theorem steps_update {st : Status} {fields : JobFields} (hst : st ≠ .failed) :
    (updateStatus jobId st fields).Uses BodyStep := by
  have hno : ∀ x : Option Status, x = some st → x ≠ some .failed := by
    intro x h he
    subst h
    exact hst (Option.some.inj he)
  refine .bind (.await ⟨id, nofun, hno _ rfl⟩) fun row => ?_
  cases row with
  | none => trivial
  | some loaded => exact .bind (.await ⟨id, nofun, hno _ rfl⟩) fun _ => trivial

theorem steps_publishLog {line : LogLine} (h : ¬ Announces (.publish line)) : (publishLog ctx line).Uses BodyStep :=
  uses_publishLog ⟨h, nofun, id⟩

theorem steps_importJobBody (job : JobDict) (r : Resolved) : (importJobBody ctx job jobId r).Uses BodyStep := by
  have hrun : ∀ {β : Type} {p : JobProg β}, p.Uses (RunOp jobId) → p.Uses BodyStep := fun h => h.mono runOp_body
  refine .bind (hrun (.await trivial)) fun _ => .bind (steps_publishLog id)
    fun _ => .bind (steps_publishLog id) fun _ => ?_
  refine .bind (hrun (.await trivial)) fun keys => ?_
  split
  · exact .bind (steps_publishLog id) fun _ => .bind (steps_update nofun) fun _ => trivial
  · refine .bind (hrun (runs_update rfl)) fun _ => .bind (steps_publishLog id)
      fun _ => .bind (steps_publishLog id) fun _ => ?_
    refine .bind (hrun (runs_createFolders _)) fun _ => .bind (hrun (.await trivial)) fun current => ?_
    split
    · exact .bind (steps_publishLog id) fun _ => trivial
    · refine .bind (steps_publishLog id) fun _ => .bind (hrun (runs_batchLoop _ _ _ _)) fun p => ?_
      refine .bind (hrun (.await trivial)) fun current => ?_
      split
      · exact .bind (steps_publishLog id) fun _ => trivial
      · exact .bind (steps_update nofun) fun _ => .bind (steps_publishLog id) fun _ => trivial

end Pieces

end Connect.Worker
