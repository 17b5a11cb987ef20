/-
  Connect.Worker.Stale — which jobs are left running.

  The UPDATE of `timeout_stale_jobs` asks for `status = 'running' AND started_at < cutoff`.
  No task ever writes started_at: `create_job` leaves it NULL and `import_job` passes it to
  no `update` (`never_started`), and a comparison with NULL is not true. So the statement
  affects no row in any run (`timesOut_idle`), and what a crashed worker leaves running
  stays so, since the redelivery of its message is skipped (`job_stays_running`).

  That no job is left running is therefore up to the workers alone. `StepAlive` says what
  they must not do: end, raise or crash with the row still running when nobody else works
  on the job, or let an hour pass without a write of it. Only a run of `import_job` sets a
  row running (`did_running`, `flush_underWay`), so in the runs without such steps every
  running row has its worker, and no cron finds or leaves one that was not written for an
  hour (`none_left_running`).
-/

import Connect.Worker.StatusMonotone

namespace Connect.Worker

open Await

/-- No row is running that was last written more than an hour ago. -/
def NoStale (s : Db) : Prop := ∀ i row, s.jobs i = some row → row.status = .running → s.now ≤ s.touched i + hour

def NeverStarted (s : Db) : Prop := ∀ i row, s.jobs i = some row → row.startedAt = none

/-- An `update` with this operation leaves started_at alone. -/
def KeepsStart : JobOp → Prop
  | .flushJob _ _ fields => fields.startedAt = none
  | _ => True

theorem taskOp_keepsStart (t : JobTask) (o : JobOp) (h : TaskOp t o) : KeepsStart o := by
  cases t with
  | importJob ctx jobId =>
    rcases h with h | ⟨_, _, rfl⟩
    · cases o with
      | flushJob => exact h.2.2.1
      | _ => trivial
    · trivial
  | addJob => rcases h with rfl | ⟨_, rfl⟩ <;> trivial
  | timeoutStaleJobs => rcases h with rfl | ⟨_, rfl⟩ | ⟨_, rfl⟩ <;> trivial
  | cancelJob | deleteJob | clearJobs => cases h; trivial

theorem put_neverStarted {s : Db} {i : Nat} {row : Job} (hs : NeverStarted s) (hr : row.startedAt = none) :
    NeverStarted (s.put i row) := by
  intro j row' hj
  rw [put_jobs] at hj
  by_cases e : j = i
  · subst e
    simp only [upd_same, Option.some.injEq] at hj
    rw [← hj]
    exact hr
  · rw [upd_ne _ _ e] at hj
    exact hs j row' hj

theorem did_neverStarted {s s' : Db} {o : JobOp} {r : Except Exc o.Ret} (h : Did s o r s') (hs : NeverStarted s)
    (ho : KeepsStart o) : NeverStarted s' := by
  cases h with
  | created hid => exact put_neverStarted hs rfl
  | @flushed i loaded current fields hc =>
    split
    · exact hs
    · refine put_neverStarted hs ?_
      have hf : fields.startedAt = none := ho
      simp [JobFields.apply, JobFields.differing, hf, Option.filter, hs i current hc]
  | cancelled hc _ =>
    have := hs _ _ hc
    exact put_neverStarted hs this
  | timedOut =>
    intro i row hr
    obtain ⟨row', hr', rfl⟩ := Option.map_eq_some_iff.mp hr
    split <;> exact hs i row' hr'
  | deleted | cleared => exact fun i row hr => hs i row (Option.eq_some_of_filter_eq_some hr)
  | enqueued | got | loaded | missed | raised | answered => exact hs

theorem never_started {c : Config jobSystem} (h : Reach any c) : NeverStarted (db c) := by
  induction h with
  | init s hs =>
    intro i row hr
    have hj : s.2.jobs = fun _ => none := hs.2.1
    have : s.2.jobs i = some row := hr
    rw [hj] at this
    cases this
  | @step c ch hc _ ih =>
    rcases step_db hc ch with ⟨e, b, he, hb, hd, _⟩ | ⟨_, hj, _⟩
    · exact did_neverStarted hd ih (event_op taskOp_keepsStart hc he hb)
    · intro i row hr
      rw [show (db (step c ch)).jobs = (db c).jobs from hj] at hr
      exact ih i row hr

theorem stale_false {s : Db} (h : NeverStarted s) (cutoff : Nat) {i : Nat} {row : Job} (hr : s.jobs i = some row) :
    row.stale cutoff = false := by
  simp [Job.stale, h i row hr]

theorem timeoutStale_idle {s : Db} (h : NeverStarted s) (cutoff : Nat) : s.timeoutStale cutoff = s := by
  have hj : ∀ i, ((s.jobs i).map fun row =>
      if row.stale cutoff then { row with status := .failed, errorMessage := some "timed out" } else row) =
        s.jobs i := by
    intro i
    cases hr : s.jobs i with
    | none => rfl
    | some row => simp [stale_false h cutoff hr]
  have ht : ∀ i, (if (s.jobs i).any (Job.stale cutoff) then s.now else s.touched i) = s.touched i := by
    intro i
    cases hr : s.jobs i with
    | none => rfl
    | some row => simp [stale_false h cutoff hr]
  unfold Db.timeoutStale
  simp only [hj, ht]

/-- The step commits the UPDATE of `timeout_stale`. -/
def TimesOut (c : Config jobSystem) (ch : Choice jobSystem) : Prop :=
  ∃ e pid cutoff rows, event c ch = some e ∧ bodyEvent e = some ⟨pid, JobOp.timeoutStale cutoff, .ok rows⟩

/-- In every run, when `timeout_stale_jobs` commits, it has changed nothing. -/
theorem timesOut_idle {c : Config jobSystem} (h : Reach any c) {ch : Choice jobSystem} (ht : TimesOut c ch) :
    db (step c ch) = db c := by
  obtain ⟨e, pid, cutoff, rows, he, hb⟩ := ht
  rcases step_db h ch with ⟨e', b, he', hb', hd, _⟩ | ⟨hn, _, _⟩
  · rw [he] at he'
    cases he'
    rw [hb] at hb'
    cases hb'
    have hd : Did (db c) (.timeoutStale cutoff) (.ok rows) (db (step c ch)) := hd
    generalize db (step c ch) = s' at hd
    cases hd with
    | timedOut => exact timeoutStale_idle (never_started h) cutoff
    | answered h => exact h.elim
  · rw [hn e he] at hb; cases hb

/-! ## Who works on a job -/

def IsRunning (s : Db) (jobId : Nat) : Prop := ∃ row, s.jobs jobId = some row ∧ row.status = .running

/-- The process is a run of `import_job` for this job, and not at its end. -/
def worksOn (c : Config jobSystem) (jobId pid : Nat) : Bool :=
  match c.task pid, c.procs pid with
  | some (.importJob _ i), some (.op _ _) => i == jobId
  | _, _ => false

def UnderWay (c : Config jobSystem) (jobId : Nat) : Prop := ∃ pid, worksOn c jobId pid = true

/-- The step leaves no running job without its last worker, and the clock does not go past
    the hour after the last write of one that is worked on. -/
structure StepAlive (c : Config jobSystem) (ch : Choice jobSystem) : Prop where
  keeps : ∀ jobId, UnderWay c jobId → IsRunning (db (step c ch)) jobId → UnderWay (step c ch) jobId
  writes : ∀ jobId n, ch = .env (.tick n) → UnderWay c jobId → IsRunning (db c) jobId →
    (db c).now + n ≤ (db c).touched jobId + hour

/-- A row is running because it was, or because an `update` has just written it. -/
theorem did_running {s s' : Db} {o : JobOp} {r : Except Exc o.Ret} (h : Did s o r s') {i : Nat}
    (hr : IsRunning s' i) :
    s'.now = s.now ∧ (IsRunning s i ∧ s'.touched i = s.touched i ∨
      s'.touched i = s.now ∧ ∃ loaded fields, o = .flushJob i loaded fields) := by
  have hput : ∀ {j : Nat} {row : Job}, IsRunning (s.put j row) i →
      row.status = .running ∧ i = j ∨ IsRunning s i ∧ (s.put j row).touched i = s.touched i := by
    intro j row ⟨row', hrow, hst⟩
    rw [put_jobs] at hrow
    by_cases e : i = j
    · subst e
      simp only [upd_same, Option.some.injEq] at hrow
      exact Or.inl ⟨hrow ▸ hst, rfl⟩
    · rw [upd_ne _ _ e] at hrow
      exact Or.inr ⟨⟨row', hrow, hst⟩, upd_ne _ _ e⟩
  cases h with
  | created =>
    rcases hput hr with ⟨hst, _⟩ | hold
    · cases hst
    · exact ⟨rfl, Or.inl hold⟩
  | @flushed j loaded current fields hc =>
    split at hr
    · rename_i hnone
      rw [if_pos hnone]
      exact ⟨rfl, Or.inl ⟨hr, rfl⟩⟩
    · rename_i hsome
      rw [if_neg hsome]
      rcases hput hr with ⟨_, rfl⟩ | hold
      · exact ⟨rfl, Or.inr ⟨upd_same _ _ _, _, _, rfl⟩⟩
      · exact ⟨rfl, Or.inl hold⟩
  | cancelled =>
    rcases hput hr with ⟨hst, _⟩ | hold
    · cases hst
    · exact ⟨rfl, Or.inl hold⟩
  | @timedOut cutoff =>
    obtain ⟨row, hrow, hst⟩ := hr
    obtain ⟨row', hrow', rfl⟩ := Option.map_eq_some_iff.mp hrow
    have hlive : row'.stale cutoff = false := by
      by_cases hs : row'.stale cutoff = true
      · rw [if_pos hs] at hst
        cases hst
      · simpa using hs
    have hst' : row'.status = .running := by simpa [hlive] using hst
    exact ⟨rfl, Or.inl ⟨⟨row', hrow', hst'⟩, by simp [Db.timeoutStale, hrow', hlive]⟩⟩
  | deleted | cleared =>
    obtain ⟨row, hrow, hst⟩ := hr
    exact ⟨rfl, Or.inl ⟨⟨row, Option.eq_some_of_filter_eq_some hrow, hst⟩, rfl⟩⟩
  | enqueued | got | loaded | missed | raised | answered => exact ⟨rfl, Or.inl ⟨hr, rfl⟩⟩

theorem taskOp_flush {t : JobTask} {i : Nat} {loaded : Job} {fields : JobFields}
    (h : TaskOp t (.flushJob i loaded fields)) :
    ∃ ctx, t = .importJob ctx i := by
  cases t with
  | importJob ctx jobId =>
    rcases h with h | ⟨_, _, h⟩
    · exact ⟨ctx, by rw [h.1]⟩
    · cases h
  | addJob => rcases h with h | ⟨_, h⟩ <;> cases h
  | timeoutStaleJobs => rcases h with h | ⟨_, h⟩ | ⟨_, h⟩ <;> cases h
  | cancelJob | deleteJob | clearJobs => cases h

theorem proc_uses {c : Config jobSystem} (h : Reach any c) {pid : Nat} {p : Prog (TaskSig jobSig) Exc (Option Reply)}
    (hp : c.procs pid = some p) : ∃ t, c.task pid = some t ∧ p.Uses (BodyOp (TaskOp t)) := by
  refine procs_form (M := jobSystem) (fun _ t p => Prog.Uses (BodyOp (TaskOp t)) p) (fun _ t => ?_)
    (fun _ _ _ _ r hu => ?_) h pid p hp
  · exact uses_guarded (H := jobs) (uses_code t)
  · exact hu.2 r

/-- Who writes a row with `update` works on its job. -/
theorem flush_underWay {c : Config jobSystem} (h : Reach any c) {ch : Choice jobSystem}
    {e : Event (TaskSig jobSig) Exc}
    {pid i : Nat} {loaded : Job} {fields : JobFields} {r : Except Exc Job} (he : event c ch = some e)
    (hb : bodyEvent e = some ⟨pid, JobOp.flushJob i loaded fields, r⟩) : UnderWay c i := by
  obtain ⟨k, s, hp, _, _⟩ := event_some he
  obtain ⟨t, ht, hu⟩ := proc_uses h hp
  obtain ⟨q, o | o, r'⟩ := e
  · cases hb
  · cases hb
    obtain ⟨ctx, rfl⟩ := taskOp_flush hu.1
    exact ⟨pid, by simp [worksOn, ht, hp]⟩

/-- Only the clock moves the time, and only the operations of the tasks a row. -/
theorem step_clock (c : Config jobSystem) (ch : Choice jobSystem) :
    (∃ n, ch = .env (.tick n) ∧ db (step c ch) = { db c with now := (db c).now + n }) ∨
    (∃ e b, event c ch = some e ∧ bodyEvent e = some b ∧ Did (db c) b.op b.ans (db (step c ch))) ∨
    ((db (step c ch)).jobs = (db c).jobs ∧ (db (step c ch)).touched = (db c).touched ∧
      (db (step c ch)).now = (db c).now) := by
  cases ch with
  | run pid ans =>
    refine Or.inr ?_
    cases he : event c (.run pid ans) with
    | none =>
      rw [run_idle he]
      exact Or.inr ⟨rfl, rfl, rfl⟩
    | some e =>
      obtain ⟨k, s, _, hx, hs⟩ := event_some he
      obtain ⟨q, o | o, r⟩ := e
      · have hsame : s.2 = db c := congrArg World.st (exec_inner hx)
        rw [hs]
        show _ ∨ s.2.jobs = _ ∧ s.2.touched = _ ∧ s.2.now = _
        rw [hsame]
        exact Or.inr ⟨rfl, rfl, rfl⟩
      · obtain ⟨s', hx', heq⟩ := exec_inner hx
        have hst : s.2 = s' := congrArg World.st heq
        refine Or.inl ⟨_, _, rfl, rfl, ?_⟩
        rw [hs]
        show Did (db c) o r s.2
        rw [hst]
        exact exec_did hx'
  | crash pid => exact Or.inr (Or.inr ⟨rfl, rfl, rfl⟩)
  | start t =>
    by_cases h : jobSystem.starts c.w.st t = true
    · rw [start_step h]
      exact Or.inr (Or.inr ⟨rfl, rfl, rfl⟩)
    · rw [start_idle h]
      exact Or.inr (Or.inr ⟨rfl, rfl, rfl⟩)
  | env e =>
    cases e with
    | tick n => exact Or.inl ⟨n, rfl, rfl⟩
    | ack arqId => exact Or.inr (Or.inr ⟨rfl, rfl, rfl⟩)
    | requeue arqId jobId =>
      refine Or.inr (Or.inr ?_)
      cases hx : jobSystem.env c.w.st (.requeue arqId jobId) with
      | none =>
        rw [env_idle hx]
        exact ⟨rfl, rfl, rfl⟩
      | some s =>
        rw [env_step hx]
        obtain ⟨s', hs', rfl⟩ := Option.map_eq_some_iff.mp hx
        simp only [Db.env] at hs'
        split at hs'
        · cases hs'
          exact ⟨rfl, rfl, rfl⟩
        · cases hs'

/-- Every running job has its worker, and was written within the hour. -/
def Alive (c : Config jobSystem) : Prop :=
  ∀ jobId, IsRunning (db c) jobId → UnderWay c jobId ∧ (db c).now ≤ (db c).touched jobId + hour

theorem alive_step {c : Config jobSystem} (h : Reach any c) {ch : Choice jobSystem} (hok : StepAlive c ch)
    (hc : Alive c) :
    Alive (step c ch) := by
  intro jobId hrun
  -- somebody worked on the job, so somebody still does
  suffices hbefore : UnderWay c jobId ∧ (db (step c ch)).now ≤ (db (step c ch)).touched jobId + hour from
    ⟨hok.keeps jobId hbefore.1 hrun, hbefore.2⟩
  rcases step_clock c ch with ⟨n, htick, hdb⟩ | ⟨e, b, he, hb, hd⟩ | ⟨hj, ht, hn⟩
  · have hrun' : IsRunning (db c) jobId := by rwa [hdb] at hrun
    have hw := (hc jobId hrun').1
    rw [hdb]
    exact ⟨hw, hok.writes jobId n htick hw hrun'⟩
  · obtain ⟨pid, o, r⟩ := b
    obtain ⟨hn, ⟨hrun', ht⟩ | ⟨ht, loaded, fields, rfl⟩⟩ := did_running hd hrun
    · rw [hn, ht]
      exact hc jobId hrun'
    · rw [hn, ht]
      exact ⟨flush_underWay h he hb, Nat.le_add_right _ _⟩
  · rw [ht, hn]
    refine hc jobId ?_
    obtain ⟨row, hrow, hst⟩ := hrun
    exact ⟨row, hj ▸ hrow, hst⟩

/-- In a run in which no worker leaves its job running and none is silent for an hour, no
    job is left running for more than an hour after any step, a commit of
    `timeout_stale_jobs` or another. -/
theorem none_left_running {s : jobSystem.State} (hs : jobSystem.init s) (f : Sched jobSystem) (n : Nat)
    (hok : ∀ m < n, StepAlive (conf s f m) (f m)) : NoStale (db (conf s f n)) := by
  have halive : Alive (conf s f n) := by
    induction n with
    | zero =>
      rintro jobId ⟨row, hrow, _⟩
      have hj : s.2.jobs jobId = some row := hrow
      rw [show s.2.jobs = _ from hs.2.1] at hj
      cases hj
    | succ n ih =>
      exact alive_step (conf_reach hs fun _ _ _ _ => trivial) (hok n (Nat.lt_succ_self n))
        (ih fun m hm => hok m (Nat.lt_succ_of_lt hm))
  exact fun jobId row hrow hst => (halive jobId ⟨row, hrow, hst⟩).2

/-- The check of `StepAlive` for a run: after the step every running job has its worker,
    and was written within the hour. -/
def aliveAfter (c : Config jobSystem) (ch : Choice jobSystem) : Bool :=
  let c' := step c ch
  (List.range (db c').nextId).all fun i => !((db c').jobs i).any (·.status == .running) ||
    ((List.range c'.next).any (worksOn c' i) && decide ((db c').now ≤ (db c').touched i + hour))

theorem aliveAfter_step {c : Config jobSystem} (h : Reach any c) {ch : Choice jobSystem}
    (hc : aliveAfter c ch = true) :
    StepAlive c ch := by
  have hids := reach_ids (.step ch h fun _ _ => trivial)
  have hall : ∀ jobId, IsRunning (db (step c ch)) jobId →
      UnderWay (step c ch) jobId ∧ (db (step c ch)).now ≤ (db (step c ch)).touched jobId + hour := by
    rintro jobId ⟨row, hrow, hst⟩
    have hlt : jobId < (db (step c ch)).nextId := by
      rcases Nat.lt_or_ge jobId (db (step c ch)).nextId with hlt | hge
      · exact hlt
      · rw [hids jobId hge] at hrow; cases hrow
    have hj := List.all_eq_true.mp hc jobId (List.mem_range.mpr hlt)
    simp only [hrow, Option.any_some, hst, beq_self_eq_true, Bool.not_true, Bool.false_or, Bool.and_eq_true,
      List.any_eq_true, decide_eq_true_eq] at hj
    obtain ⟨⟨pid, _, hw⟩, htime⟩ := hj
    exact ⟨⟨pid, hw⟩, htime⟩
  refine ⟨fun jobId _ hrun => (hall jobId hrun).1, fun jobId n htick _ hrun => ?_⟩
  subst htick
  exact (hall jobId hrun).2

def minute : Nat := 60 * 1000000

def cron (arqId : String) : Choice jobSystem := .start (.timeoutStaleJobs ⟨some arqId, none, none, false⟩)

/-- A job of one key takes an hour and a half; `timeout_stale_jobs` runs while it is at it
    and long after. -/
def slowRun : List (Choice jobSystem) :=
  let works := fun pid k => List.replicate k (Choice.run (M := jobSystem) pid (obey ["key"]))
  [.start (.addJob none "bucket" "" "filespace" "datastore" true)] ++ works 0 2 ++
    [.start (.importJob ⟨some "a", none, none, false⟩ 0)] ++ works 1 5 ++ [.env (.tick (50 * minute))] ++ works 1 6 ++
    [.env (.tick (40 * minute)), cron "cron:timeout_stale_jobs:1"] ++ works 2 4 ++ works 1 12 ++
    [.env (.tick (2 * hour)), cron "cron:timeout_stale_jobs:2"] ++ works 3 4

def slow : Sched jobSystem := sched slowRun (.env (.tick 0))

theorem none_left_running_slow : TimesOut (conf noJobs slow 21) (slow 21) ∧ TimesOut (conf noJobs slow 39) (slow 39) ∧
    ∀ n ≤ 40, NoStale (db (conf noJobs slow n)) := by
  have hpass : passes aliveAfter (start noJobs) slowRun = true := by decide +kernel
  refine ⟨⟨_, _, _, _, rfl, rfl⟩, ⟨_, _, _, _, rfl, rfl⟩, fun n hn => ?_⟩
  have hinit : jobSystem.init noJobs := ⟨rfl, rfl, rfl⟩
  refine none_left_running hinit slow n fun m hm => ?_
  exact aliveAfter_step (conf_reach hinit fun _ _ _ _ => trivial) (passes_conf hpass (Nat.lt_of_lt_of_le hm hn))

/-- The worker crashes right after it wrote `running`; two hours later the cron runs. -/
def crashed : Sched jobSystem := sched
  [.start (.addJob none "bucket" "" "filespace" "datastore" true), .run 0 (obey []), .run 0 (obey []),
    .start (.importJob ⟨some "a", none, none, false⟩ 0), .run 1 (obey []), .run 1 (obey []), .run 1 (obey []),
    .run 1 (obey []), .run 1 (obey []), .crash 1, .env (.tick (2 * hour)),
    .start (.timeoutStaleJobs ⟨some "cron:timeout_stale_jobs", none, none, false⟩),
    .run 2 (obey []), .run 2 (obey []), .run 2 (obey []), .run 2 (obey [])]
  (.env (.tick 0))

theorem job_stays_running :
    jobSystem.init noJobs ∧ TimesOut (conf noJobs crashed 15) (crashed 15) ∧
    ¬ NoStale (db (conf noJobs crashed 16)) := by
  refine ⟨⟨rfl, rfl, rfl⟩, ⟨_, _, _, _, rfl, rfl⟩, fun h => ?_⟩
  have hrow : (db (conf noJobs crashed 16)).jobs 0 = some
      { newJob noJobs.2 none "bucket" "" "filespace" "datastore" with status := .running } := by decide
  have := h 0 _ hrow rfl
  revert this
  decide

end Connect.Worker
