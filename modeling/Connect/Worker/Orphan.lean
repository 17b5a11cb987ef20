/-
  Connect.Worker.Orphan — pending rows and the messages that are to start them.

  `add_job` commits its row before it enqueues the message, `@idempotent` commits its
  marker before `import_job` has written `running`, and nothing scans pending rows. So a
  row is orphaned by a missing connection, by an enqueue that raises, by a delivery that
  ends between the marker and `running`, and by a message ARQ drops without a marker
  (`orphaned_without_pool`, `orphaned_by_raise`, `orphaned_by_crash`).

  In a run without these (`Orderly`), a pending row whose `add_job` call is over has a
  message whose delivery starts the body, or is in the hands of a live delivery that has
  committed its marker and is about to write `running` (`pending_served`).
-/

import Connect.Worker.StatusMonotone

namespace Connect.Worker

open Await

abbrev RunProg := Prog (TaskSig jobSig) Exc (Option Reply)

/-! ## Where a delivery is before it has written `running` -/

/-- A body with the handler of `@idempotent` around it. -/
def inWrapper (arqId : String) (p : JobProg JobResult) : RunProg :=
  (some <$> (Reply.imported <$> p).lift : RunProg).catching fun e =>
    if e.isException then do
      markFailed arqId
      .raise e
    else .raise e

/-- What `import_job` does after it has written `running`. -/
def afterRunning (ctx : Ctx) (jobId : Nat) (job : JobDict) : JobProg JobResult := do
  publishLog ctx (.started job.keyPrefix)
  tryImport ctx jobId job

/-- Between the commit of the marker and the commit of `running`. -/
inductive Starting (arqId : String) (ctx : Ctx) (jobId : Nat) : RunProg → Prop
  | marked : Starting arqId ctx jobId ((enter arqId).bind fun _ => inWrapper arqId (importJob ctx jobId))
  | entered : Starting arqId ctx jobId (inWrapper arqId (importJob ctx jobId))
  | read (job : JobDict) :
      Starting arqId ctx jobId (inWrapper arqId
        ((updateStatus jobId .running {}).bind fun _ => afterRunning ctx jobId job))
  | loaded (job : JobDict) (row : Job) : row.status = .pending →
      Starting arqId ctx jobId (inWrapper arqId
        ((some <$> flushJob jobId row { status := some .running }).bind fun _ => afterRunning ctx jobId job))

/-- An operation of a task leaves processed_jobs alone. -/
theorem task_did {pid : Nat} {s s' : jobSystem.State} {o : JobOp} {r : Except Exc o.Ret}
    (h : jobSystem.exec pid s (.inr o) r = some s') : s'.1 = s.1 ∧ Did s.2 o r s'.2 := by
  obtain ⟨t, ht, rfl⟩ := Option.map_eq_some_iff.mp h
  exact ⟨rfl, exec_did ht⟩

/-- A call that does not raise takes it to the next point, or leaves its row not pending. -/
theorem starting_step {arqId : String} {ctx : Ctx} {jobId : Nat} {o : (TaskSig jobSig).Op}
    {k : Except Exc ((TaskSig jobSig).Ret o) → RunProg} (h : Starting arqId ctx jobId (.op o k)) {pid : Nat}
    {s s' : jobSystem.State} {r : Except Exc ((TaskSig jobSig).Ret o)} (hx : jobSystem.exec pid s o r = some s')
    (hr : ∀ e, r ≠ .error e) (hp : status s.2 jobId = some .pending) :
    Starting arqId ctx jobId (k r) ∨ status s'.2 jobId ≠ some .pending := by
  obtain ⟨row, hrow, hst⟩ := Option.map_eq_some_iff.mp hp
  rcases r with e | v
  · exact absurd rfl (hr e)
  generalize hq : Prog.op o k = q at h
  cases h with
  | marked =>
    cases hq
    exact Or.inl .entered
  | entered =>
    cases hq
    obtain ⟨_, hd⟩ := task_did hx
    generalize s'.2 = t at hd
    cases hd with
    | got =>
      rw [hrow]
      exact Or.inl (.read _)
    | answered h => exact h.elim
  | read job =>
    cases hq
    obtain ⟨_, hd⟩ := task_did hx
    generalize s'.2 = t at hd
    cases hd with
    | loaded =>
      rw [hrow]
      exact Or.inl (.loaded job row hst)
    | answered h => exact h.elim
  | loaded job loaded hl =>
    cases hq
    obtain ⟨_, hd⟩ := task_did hx
    refine Or.inr ?_
    generalize s'.2 = t at hd ⊢
    cases hd with
    | @flushed _ _ current _ hc =>
      rw [status, flush_jobs _ hc, upd_same, Option.map_some, flush_status (w := .running) _ _ rfl, hl]
      simp
    | answered h => exact h.elim

/-! ## Messages and markers -/

/-- What a step does to the ARQ queue. -/
inductive QueueMoves (s s' : Db) : Prop
  | same : s'.queue = s.queue → s'.issued = s.issued → QueueMoves s s'
  | added (arqId : String) (jobId : Nat) : arqId ≠ "" → cronId arqId = false → arqId ∉ s.issued →
      s'.queue = (arqId, jobId) :: s.queue → s'.issued = arqId :: s.issued → QueueMoves s s'
  | acked (arqId : String) : s'.queue = s.queue.filter (·.1 != arqId) → s'.issued = s.issued → QueueMoves s s'

theorem did_queue {s s' : Db} {o : JobOp} {r : Except Exc o.Ret} (h : Did s o r s') : QueueMoves s s' := by
  cases h with
  | enqueued ha hc hf => exact .added _ _ ha hc hf rfl rfl
  | flushed hc => split <;> exact .same rfl rfl
  | created | cancelled | timedOut | deleted | cleared | got | loaded | missed | raised | answered =>
    exact .same rfl rfl

theorem env_queue {s s' : Db} {e : JobEnv} (h : s.env e = some s') : QueueMoves s s' := by
  cases e with
  | tick n => cases h; exact .same rfl rfl
  | ack arqId => cases h; exact .acked arqId rfl rfl
  | requeue arqId jobId =>
    simp only [Db.env] at h
    split at h
    · rename_i hc
      cases h
      exact .added arqId jobId hc.1 hc.2.1 hc.2.2 rfl rfl
    · cases h

/-- A step of a process moves the queue as its operation does. -/
theorem exec_queue {pid : Nat} {s s' : jobSystem.State} {o : (TaskSig jobSig).Op}
    {r : Except Exc ((TaskSig jobSig).Ret o)}
    (h : jobSystem.exec pid s o r = some s') : QueueMoves s.2 s'.2 := by
  rcases o with o | o
  · obtain ⟨t, _, rfl⟩ := Option.map_eq_some_iff.mp h
    exact .same rfl rfl
  · exact did_queue (task_did h).2

structure Messages (c : Config jobSystem) : Prop where
  queue : ∀ a i, (a, i) ∈ (db c).queue →
    a ∈ (db c).issued ∧ a ≠ "" ∧ cronId a = false ∧ ∀ j, (a, j) ∈ (db c).queue → j = i
  deliver : ∀ pid ctx i, c.task pid = some (.importJob ctx i) →
    ∃ a, ctx.jobId = some a ∧ a ∈ (db c).issued ∧ ∀ j, (a, j) ∈ (db c).queue → j = i
  cron : ∀ pid ctx, c.task pid = some (.timeoutStaleJobs ctx) → ctx.jobId.any cronId = true
  marks : ∀ a, c.w.st.1 a ≠ none → a ∈ (db c).issued ∨ cronId a = true

/-- What the queue keeps of its messages and of the deliveries under way. -/
theorem QueueMoves.keeps {s s' : Db} (h : QueueMoves s s') :
    ((∀ a i, (a, i) ∈ s.queue → a ∈ s.issued ∧ a ≠ "" ∧ cronId a = false ∧ ∀ j, (a, j) ∈ s.queue → j = i) →
      ∀ a i, (a, i) ∈ s'.queue → a ∈ s'.issued ∧ a ≠ "" ∧ cronId a = false ∧ ∀ j, (a, j) ∈ s'.queue → j = i) ∧
    (∀ a, a ∈ s.issued → a ∈ s'.issued) ∧
    ∀ a i, a ∈ s.issued → (∀ j, (a, j) ∈ s.queue → j = i) → ∀ j, (a, j) ∈ s'.queue → j = i := by
  cases h with
  | same hq hi => rw [hq, hi]; exact ⟨id, fun _ => id, fun _ _ _ => id⟩
  | added b jobId hb hc hf hq hi =>
    rw [hq, hi]
    refine ⟨fun h a i hm => ?_, fun a => List.mem_cons_of_mem b, fun a i ha h j hm => ?_⟩
    · rcases List.mem_cons.mp hm with he | hm
      · cases he
        refine ⟨List.mem_cons_self, hb, hc, fun j hj => ?_⟩
        rcases List.mem_cons.mp hj with he | hj
        · cases he; rfl
        · exact absurd (h _ _ hj).1 hf
      · obtain ⟨h1, h2, h3, h4⟩ := h a i hm
        refine ⟨List.mem_cons_of_mem _ h1, h2, h3, fun j hj => ?_⟩
        rcases List.mem_cons.mp hj with he | hj
        · cases he; exact absurd h1 hf
        · exact h4 j hj
    · rcases List.mem_cons.mp hm with he | hm
      · cases he; exact absurd ha hf
      · exact h j hm
  | acked b hq hi =>
    rw [hq, hi]
    refine ⟨fun h a i hm => ?_, fun _ => id, fun a i _ h j hm => h j (List.mem_filter.mp hm).1⟩
    obtain ⟨h1, h2, h3, h4⟩ := h a i (List.mem_filter.mp hm).1
    exact ⟨h1, h2, h3, fun j hj => h4 j (List.mem_filter.mp hj).1⟩

/-- How a call of a process moves the markers. -/
theorem exec_marks {c : Config jobSystem} (h : Reach any c) {pid : Nat} {o : (TaskSig jobSig).Op}
    {k : Except Exc ((TaskSig jobSig).Ret o) → RunProg} {r : Except Exc ((TaskSig jobSig).Ret o)}
    {s : jobSystem.State}
    (hp : c.procs pid = some (.op o k)) (hx : jobSystem.exec pid c.w.st o r = some s) (a : String)
    (ha : s.1 a ≠ none) (hn : c.w.st.1 a = none) :
    ∃ t ctx, c.task pid = some t ∧ wrapped t = some ctx ∧ truthy ctx.jobId = some a ∧ k r = onceMarked a t.code := by
  rcases o with o | o
  · obtain ⟨t, ht, rfl⟩ := Option.map_eq_some_iff.mp hx
    rcases o with ⟨j, w, st⟩ | j | j
    · rcases r with e | inserted
      · cases ht; exact absurd hn ha
      · simp only [Processed.exec] at ht
        cases hj : c.w.st.1 j with
        | some row =>
          simp only [hj] at ht
          split at ht <;> cases ht
          exact absurd hn ha
        | none =>
          simp only [hj] at ht
          split at ht
          · rename_i hins
            subst hins
            cases ht
            have he : a = j := by
              by_cases e : a = j
              · exact e
              · simp [Processed.set, e, hn] at ha
            subst he
            exact at_start h hp
          · cases ht
    · rcases r with e | v
      · cases ht; exact absurd hn ha
      · simp only [Processed.exec] at ht
        cases hj : c.w.st.1 j with
        | none => simp only [hj] at ht; cases ht; exact absurd hn ha
        | some row =>
          simp only [hj] at ht
          cases ht
          by_cases e : a = j
          · subst e; rw [hn] at hj; cases hj
          · simp [Processed.set, e, hn] at ha
    · rcases r with e | v <;> cases ht
      exact absurd hn ha
  · rw [(task_did hx).1] at ha
    exact absurd hn ha

theorem Messages.moved {c : Config jobSystem} (h : Messages c) {s : Db} (hq : QueueMoves (db c) s)
    {t : Processed} (ht : ∀ a, t a ≠ none → c.w.st.1 a = none → a ∈ (db c).issued ∨ cronId a = true)
    {hist : List (Event (TaskSig jobSig) Exc)} {procs : Nat → Option RunProg} :
    Messages { c with w := ⟨(t, s), hist⟩, procs := procs } := by
  obtain ⟨hk1, hk2, hk3⟩ := hq.keeps
  refine ⟨hk1 h.queue, fun pid ctx i htask => ?_, h.cron, fun a ha => ?_⟩
  · obtain ⟨a, hj, hi, hu⟩ := h.deliver pid ctx i htask
    exact ⟨a, hj, hk2 a hi, hk3 a i hi hu⟩
  · cases hn : c.w.st.1 a with
    | none => exact (ht a ha hn).imp_left (hk2 a)
    | some row => exact (h.marks a (by rw [hn]; simp)).imp_left (hk2 a)

theorem messages {c : Config jobSystem} (h : Reach any c) : Messages c := by
  induction h with
  | init s hs =>
    refine ⟨fun a i hm => ?_, fun pid ctx i ht => (by cases ht), fun pid ctx ht => (by cases ht), fun a ha => ?_⟩
    · have hq : s.2.queue = [] := hs.2.2
      have hm : (a, i) ∈ s.2.queue := hm
      rw [hq] at hm
      cases hm
    · have ht : s.1 = fun _ => none := hs.1
      exact absurd (congrFun ht a) ha
  | @step c ch hc _ ih =>
    have hm := step_moved c ch
    revert hm
    generalize step c ch = c'
    intro hm
    cases hm with
    | idle => exact ih
    | crashed pid => exact ⟨ih.queue, ih.deliver, ih.cron, ih.marks⟩
    | @moved e s _ hx =>
      obtain ⟨t, ht, rfl⟩ := Option.map_eq_some_iff.mp hx
      exact ih.moved (env_queue ht) fun a ha hn => absurd hn ha
    | @ran pid o k r s hp hx =>
      refine ih.moved (exec_queue hx) fun a ha hn => ?_
      obtain ⟨t, ctx, ht, hw, hj, _⟩ := exec_marks hc hp hx a ha hn
      cases t with
      | importJob ctx' i =>
        cases hw
        obtain ⟨b, hb, hi, _⟩ := ih.deliver pid _ i ht
        rw [hb] at hj
        cases Option.eq_some_of_filter_eq_some hj
        exact Or.inl hi
      | timeoutStaleJobs ctx' =>
        cases hw
        have hcron := ih.cron pid _ ht
        rw [Option.eq_some_of_filter_eq_some hj] at hcron
        exact Or.inr hcron
      | addJob | cancelJob | deleteJob | clearJobs => cases hw
    | started t _ hs =>
      refine ⟨ih.queue, fun pid ctx i ht => ?_, fun pid ctx ht => ?_, ih.marks⟩
      · by_cases e : pid = c.next
        · subst e
          simp only [upd_same] at ht
          cases ht
          obtain ⟨⟨a, j⟩, hm, hma⟩ := List.any_eq_true.mp hs
          simp only [Bool.and_eq_true, beq_iff_eq] at hma
          obtain ⟨ha, rfl⟩ := hma
          obtain ⟨hi, _, _, hu⟩ := ih.queue a j hm
          exact ⟨a, ha.symm, hi, hu⟩
        · simp only [upd_ne _ _ e] at ht
          exact ih.deliver pid ctx i ht
      · by_cases e : pid = c.next
        · subst e
          simp only [upd_same] at ht
          cases ht
          exact hs
        · simp only [upd_ne _ _ e] at ht
          exact ih.cron pid ctx ht

/-! ## Rows and the calls that created them -/

/-- Process `pid` committed row `jobId`. -/
def Created (c : Config jobSystem) (pid jobId : Nat) : Prop :=
  ∃ userId bucket keyPrefix filespaceId datastoreId,
    ⟨pid, Sum.inr (JobOp.createJob userId bucket keyPrefix filespaceId datastoreId), .ok jobId⟩ ∈ c.w.hist

/-- The call has returned or raised. -/
def Over (c : Config jobSystem) (pid : Nat) : Prop :=
  (∃ v, c.procs pid = some (.ret v)) ∨ ∃ e, c.procs pid = some (.raise e)

def Pending (c : Config jobSystem) (jobId : Nat) : Prop := status (db c) jobId = some .pending

/-- Process `pid` is a live delivery of the message between its two commits. -/
def Starts (c : Config jobSystem) (pid : Nat) (arqId : String) (jobId : Nat) : Prop :=
  ∃ ctx p, c.task pid = some (.importJob ctx jobId) ∧ ctx.jobId = some arqId ∧ c.procs pid = some p ∧
    Starting arqId ctx jobId p

/-- A delivery of the message starts the body of `import_job`: the next one, or one under way. -/
def Startable (c : Config jobSystem) (arqId : String) (jobId : Nat) : Prop :=
  c.w.st.1 arqId = none ∨ ∃ pid, Starts c pid arqId jobId

/-- The job has a message in the queue whose delivery starts the body. -/
def Waiting (c : Config jobSystem) (jobId : Nat) : Prop :=
  ∃ arqId, (arqId, jobId) ∈ (db c).queue ∧ Startable c arqId jobId

/-- No dispatched job is orphaned, and a call that raised leaves no pending row. -/
structure NoOrphan (c : Config jobSystem) : Prop where
  waiting : ∀ pid jobId, Created c pid jobId → Over c pid → Pending c jobId → Waiting c jobId
  raised : ∀ pid jobId e, Created c pid jobId → c.procs pid = some (.raise e) → ¬ Pending c jobId

/-- The step opens none of the gaps between the commits. -/
structure Orderly (c : Config jobSystem) (ch : Choice jobSystem) : Prop where
  /-- `add_job` is called with a connection to Valkey. -/
  pool : ∀ userId bucket keyPrefix filespaceId datastoreId pool,
    ch = .start (.addJob userId bucket keyPrefix filespaceId datastoreId pool) → pool = true
  /-- `enqueue_job` does not raise while the row is pending. -/
  enqueued : ∀ pid jobId e, event c ch = some ⟨pid, Sum.inr (JobOp.enqueueJob jobId), .error e⟩ → ¬ Pending c jobId
  /-- No delivery is interrupted between its two commits. -/
  answered : ∀ pid o e, event c ch = some ⟨pid, o, .error e⟩ → ∀ arqId jobId, Starts c pid arqId jobId →
    ¬ Pending c jobId
  alive : ∀ pid, ch = .crash pid → ∀ arqId jobId, Starts c pid arqId jobId → ¬ Pending c jobId
  /-- ARQ drops no message of a pending row. -/
  acked : ∀ arqId jobId, ch = .env (.ack arqId) → (arqId, jobId) ∈ (db c).queue → ¬ Pending c jobId

/-- `add_job` once the row is committed. -/
def enqueuing (jobId : Nat) : RunProg :=
  some <$> (Reply.added <$> (do
    let _ ← @Prog.await jobSig Exc (JobOp.enqueueJob jobId)
    return jobId)).lift

/-- Not the commit of a new row. -/
def NoCreate : JobOp → Prop
  | .createJob _ _ _ _ _ => False
  | _ => True

theorem enqueuing_noCreate (jobId : Nat) : (enqueuing jobId).Uses (BodyOp NoCreate) :=
  .bind (.lift (.bind (.bind (uses_op (P := NoCreate) _ trivial) fun _ => trivial) fun _ => trivial)) fun _ => trivial

theorem taskOp_noCreate (t : JobTask) :
    (∃ userId bucket keyPrefix filespaceId datastoreId pool,
      t = .addJob userId bucket keyPrefix filespaceId datastoreId pool) ∨
      ∀ o, TaskOp t o → NoCreate o := by
  cases t with
  | addJob => exact Or.inl ⟨_, _, _, _, _, _, rfl⟩
  | importJob =>
    refine Or.inr fun o h => ?_
    rcases h with h | ⟨_, _, rfl⟩
    · cases o <;> trivial
    · trivial
  | timeoutStaleJobs => exact Or.inr fun o h => by rcases h with rfl | ⟨_, rfl⟩ | ⟨_, rfl⟩ <;> trivial
  | cancelJob | deleteJob | clearJobs => exact Or.inr fun o h => by cases h; trivial

/-- The code of `add_job`. -/
theorem addJob_code (pid : Nat) (userId : Option String) (bucket keyPrefix filespaceId datastoreId : String)
    (pool : Bool) :
    jobSystem.code pid (.addJob userId bucket keyPrefix filespaceId datastoreId pool) =
      (@Prog.await (TaskSig jobSig) Exc
        (Sum.inr (JobOp.createJob (truthy userId) bucket keyPrefix filespaceId datastoreId))).bind
        fun jobId => if pool then enqueuing jobId else .ret (some (.added jobId)) := by
  cases pool with
  | true =>
    refine congrArg (@Prog.op (TaskSig jobSig) Exc _ _) (funext fun r => ?_)
    cases r <;> rfl
  | false =>
    refine congrArg (@Prog.op (TaskSig jobSig) Exc _ _) (funext fun r => ?_)
    cases r <;> rfl

/-- A process that commits a row is an `add_job` before its first call. -/
theorem create_start {c : Config jobSystem} (h : Reach any c) {pid jobId : Nat} {userId : Option String}
    {bucket keyPrefix filespaceId datastoreId : String} {k : Except Exc Nat → RunProg}
    (hp : c.procs pid = some (@Prog.op (TaskSig jobSig) _ _
      (Sum.inr (JobOp.createJob userId bucket keyPrefix filespaceId datastoreId)) k)) :
    ∃ userId bucket keyPrefix filespaceId datastoreId pool,
      c.task pid = some (.addJob userId bucket keyPrefix filespaceId datastoreId pool) ∧
        k (.ok jobId) = if pool then enqueuing jobId else .ret (some (.added jobId)) := by
  have hstep : ∀ (pid : Nat) (t : JobTask) (o : (TaskSig jobSig).Op)
      (k : Except Exc ((TaskSig jobSig).Ret o) → RunProg) r,
      (jobSystem.code pid t = .op o k ∨ (Prog.op o k).Uses (BodyOp NoCreate)) → (k r).Uses (BodyOp NoCreate) := by
    intro pid t o k r h
    rcases h with h | h
    · rcases taskOp_noCreate t with ⟨u, b, kp, fs, ds, pool, rfl⟩ | hno
      · rw [addJob_code] at h
        refine Prog.uses_tail h (fun jobId => ?_) r
        split
        · exact enqueuing_noCreate jobId
        · trivial
      · have hu : (jobSystem.code pid t).Uses (BodyOp NoCreate) := uses_guarded (H := jobs) ((uses_code t).mono hno)
        rw [h] at hu
        exact hu.2 r
    · exact h.2 r
  obtain ⟨t, ht, hF⟩ := procs_form (fun pid t p => jobSystem.code pid t = p ∨ p.Uses (BodyOp NoCreate))
    (fun _ _ => Or.inl rfl) (fun pid t o k r h => Or.inr (hstep pid t o k r h)) h pid _ hp
  rcases hF with hF | hF
  · rcases taskOp_noCreate t with ⟨u, b, kp, fs, ds, pool, rfl⟩ | hno
    · rw [addJob_code] at hF
      cases hF
      exact ⟨u, _, _, _, _, pool, ht, rfl⟩
    · have hu : (jobSystem.code pid t).Uses (BodyOp NoCreate) := uses_guarded (H := jobs) ((uses_code t).mono hno)
      rw [hF] at hu
      exact hu.1.elim
  · exact hF.1.elim

/-- No row goes back to pending. -/
theorem pending_before {c : Config jobSystem} (h : Reach any c) (ch : Choice jobSystem) {jobId : Nat}
    (hlt : jobId < (db c).nextId) (hp : Pending (step c ch) jobId) : Pending c jobId := by
  rcases step_db h ch with ⟨e, b, _, _, hd, hw⟩ | ⟨_, hj, _⟩
  · apply Classical.byContradiction
    intro hn
    have hnot : NotPending (db c) jobId := by
      refine ⟨hlt, fun row hr hst => hn ?_⟩
      show (((db c).jobs jobId).map Job.status) = _
      rw [hr, Option.map_some, hst]
    obtain ⟨row, hr, hst⟩ := Option.map_eq_some_iff.mp hp
    exact ((did_advance hd (reach_ids h) hw).started jobId hnot).2 row hr hst
  · show (((db c).jobs jobId).map Job.status) = _
    rw [← hj]
    exact hp

theorem created_step {c : Config jobSystem} {ch : Choice jobSystem} {pid jobId : Nat}
    (h : Created (step c ch) pid jobId) :
    Created c pid jobId ∨ ∃ userId bucket keyPrefix filespaceId datastoreId, event c ch =
      some ⟨pid, Sum.inr (JobOp.createJob userId bucket keyPrefix filespaceId datastoreId), .ok jobId⟩ := by
  obtain ⟨u, b, kp, fs, ds, he⟩ := h
  rw [step_hist] at he
  rcases List.mem_append.mp he with he | he
  · exact Or.inr ⟨u, b, kp, fs, ds, Option.mem_toList.mp he⟩
  · exact Or.inl ⟨u, b, kp, fs, ds, he⟩

theorem created_lt {c : Config jobSystem} (h : Reach any c) : ∀ pid jobId, Created c pid jobId →
    jobId < (db c).nextId := by
  induction h with
  | init s _ => intro pid jobId ⟨_, _, _, _, _, he⟩; cases he
  | @step c ch hc _ ih =>
    intro pid jobId hcr
    rcases created_step hcr with hold | ⟨u, b, kp, fs, ds, he⟩
    · refine Nat.lt_of_lt_of_le (ih pid jobId hold) ?_
      rcases step_db hc ch with ⟨e, b, _, _, hd, _⟩ | ⟨_, _, hn⟩
      · exact (did_ids hd (reach_ids hc)).2
      · exact Nat.le_of_eq hn.symm
    · obtain ⟨k, s, _, hx, hstep⟩ := event_some he
      obtain ⟨_, hd⟩ := task_did hx
      rw [hstep]
      show jobId < s.2.nextId
      generalize s.2 = t at hd
      cases hd with
      | created _ => exact Nat.lt_succ_self _
      | answered h => exact h.elim

/-- A process at the start of `@idempotent` whose marker is not in starts its body. -/
theorem start_enters {c : Config jobSystem} {pid : Nat} {a : String} {w : Option String} {p : JobProg Reply}
    (hp : c.procs pid = some ((markProcessed a w none).bind fun inserted => if inserted then onceMarked a p
      else .ret none))
    (hn : c.w.st.1 a = none) (keys : List String) :
    started a (step (step c (.run pid (obey keys))) (.run pid (obey keys))).w.hist = started a c.w.hist + 1 := by
  have hmark : c.w.st.1.exec (.markProcessed a w none) (.ok (c.w.st.1 a).isNone) =
      some (c.w.st.1.set a ⟨w, none⟩) := by
    simp [Processed.exec, hn]
  have h1 := @run_step _ _ _ jobSystem _ _ (obey keys) _ _ _ hp (Option.map_eq_some_iff.mpr ⟨_, hmark, rfl⟩)
  have hnext : (step c (.run pid (obey keys))).procs pid = some (onceMarked a p) := by
    rw [h1]
    refine (upd_same _ _ _).trans ?_
    show some (if (c.w.st.1 a).isNone then onceMarked a p else .ret none) = _
    rw [hn]
    rfl
  have hhist : started a (step c (.run pid (obey keys))).w.hist = started a c.w.hist := by
    rw [h1]
    exact (started_cons a _ _).trans (by simp [note, noteOf, obey])
  generalize step c (.run pid (obey keys)) = c₁ at hnext hhist
  have h2 := @run_step _ _ _ jobSystem c₁ _ (obey keys) _ _ (c₁.w.st) hnext rfl
  rw [h2, ← hhist]
  exact (started_cons a _ _).trans (by simp [note, noteOf, obey])

/-- The next delivery of a message whose marker is not in starts the body. -/
theorem unmarked_enters {c : Config jobSystem} {a : String} {i : Nat} {ctx : Ctx} (hm : (a, i) ∈ (db c).queue)
    (hn : c.w.st.1 a = none) (ha : a ≠ "") (hj : ctx.jobId = some a) (keys : List String) :
    started a (step (step (step c (.start (.importJob ctx i))) (.run c.next (obey keys)))
      (.run c.next (obey keys))).w.hist =
        started a c.w.hist + 1 := by
  have hs : jobSystem.starts c.w.st (.importJob ctx i) = true := List.any_eq_true.mpr ⟨(a, i), hm, by simp [hj]⟩
  have ht : truthy ctx.jobId = some a := by simp [truthy, hj, Option.filter, ha]
  have hw : (step c (.start (.importJob ctx i))).w = c.w := by rw [start_step hs]
  have hp : (step c (.start (.importJob ctx i))).procs c.next =
      some ((markProcessed a (orElse ctx.hostname ctx.podName) none).bind fun inserted =>
        if inserted then onceMarked a (JobTask.importJob ctx i).code else .ret none) := by
    rw [start_step hs]
    refine (upd_same _ _ _).trans ?_
    show some (idempotent _ ctx) = _
    rw [idempotent, ht]
    rfl
  rw [start_enters hp (by rw [hw]; exact hn) keys, hw]

/-! ## Orderly runs -/

/-- Where a pending row is between its commit and its `running`. -/
structure Served (c : Config jobSystem) : Prop where
  pool : ∀ pid userId bucket keyPrefix filespaceId datastoreId pool,
    c.task pid = some (.addJob userId bucket keyPrefix filespaceId datastoreId pool) → pool = true
  safe : ∀ pid jobId, Created c pid jobId → Pending c jobId →
    c.procs pid = none ∨ c.procs pid = some (enqueuing jobId) ∨
      (∃ v, c.procs pid = some (.ret v)) ∧ Waiting c jobId

section Ran

variable {c : Config jobSystem} {pid jobId : Nat} {o : (TaskSig jobSig).Op}
    {k : Except Exc ((TaskSig jobSig).Ret o) → RunProg}
  {r : Except Exc ((TaskSig jobSig).Ret o)} {s : jobSystem.State}

theorem exec_message (hx : jobSystem.exec pid c.w.st o r = some s) {m : String × Nat}
    (hm : m ∈ (db c).queue) : m ∈ s.2.queue := by
  rcases o with o | o
  · obtain ⟨t, _, rfl⟩ := Option.map_eq_some_iff.mp hx
    exact hm
  · obtain ⟨_, hd⟩ := task_did hx
    generalize s.2 = t at hd ⊢
    cases hd with
    | enqueued => exact List.mem_cons_of_mem _ hm
    | flushed => split <;> exact hm
    | created | cancelled | timedOut | deleted | cleared | got | loaded | missed | raised | answered => exact hm

/-- A delivery that inserts the marker of the message is about to start the body. -/
theorem marked_ran (h : Reach any c) (hp : c.procs pid = some (.op o k)) (hx : jobSystem.exec pid c.w.st o r = some s)
    {a : String} (hm : (a, jobId) ∈ (db c).queue) (hn : c.w.st.1 a = none) :
    Startable { c with w := c.w.after pid o r s, procs := upd c.procs pid (some (k r)) } a jobId := by
  by_cases ha : s.1 a = none
  · exact Or.inl ha
  · obtain ⟨t, ctx, ht, hwr, hj, hk⟩ := exec_marks h hp hx a ha hn
    have hms := messages h
    cases t with
    | importJob ctx' i =>
      cases hwr
      obtain ⟨b, hb, _, hu⟩ := hms.deliver pid _ i ht
      rw [hb] at hj
      cases Option.eq_some_of_filter_eq_some hj
      cases hu jobId hm
      refine Or.inr ⟨pid, ctx, k r, ht, hb, upd_same _ _ _, ?_⟩
      rw [hk]
      exact .marked
    | timeoutStaleJobs ctx' =>
      cases hwr
      have hcron := hms.cron pid _ ht
      rw [Option.eq_some_of_filter_eq_some hj, Option.any_some] at hcron
      rw [(hms.queue a jobId hm).2.2.1] at hcron
      cases hcron
    | addJob | cancelJob | deleteJob | clearJobs => cases hwr

/-- A delivery that is not interrupted stays between its commits, or its row is not pending any more. -/
theorem starts_ran (hp : c.procs pid = some (.op o k)) (hx : jobSystem.exec pid c.w.st o r = some s)
    (hpend : Pending c jobId) (hok : ∀ e, r = .error e → ∀ a, ¬ Starts c pid a jobId) {q : Nat} {a : String}
    (hs : Starts c q a jobId) :
    Starts { c with w := c.w.after pid o r s, procs := upd c.procs pid (some (k r)) } q a jobId ∨
      status s.2 jobId ≠ some .pending := by
  obtain ⟨ctx, p, ht, hj, hq, hst⟩ := id hs
  by_cases e : q = pid
  · subst e
    rw [hp] at hq
    cases hq
    rcases starting_step hst hx (fun e he => hok e he a hs) hpend with hnext | hdone
    · exact Or.inl ⟨ctx, k r, ht, hj, upd_same _ _ _, hnext⟩
    · exact Or.inr hdone
  · exact Or.inl ⟨ctx, p, ht, hj, by simpa only [upd_ne _ _ e] using hq, hst⟩

theorem waiting_ran (h : Reach any c) (hp : c.procs pid = some (.op o k))
    (hx : jobSystem.exec pid c.w.st o r = some s)
    (hpend : Pending c jobId) (hok : ∀ e, r = .error e → ∀ a, ¬ Starts c pid a jobId) (hw : Waiting c jobId) :
    Waiting { c with w := c.w.after pid o r s, procs := upd c.procs pid (some (k r)) } jobId ∨
      status s.2 jobId ≠ some .pending := by
  obtain ⟨a, hm, hn | ⟨q, hst⟩⟩ := hw
  · exact Or.inl ⟨a, exec_message hx hm, marked_ran h hp hx hm hn⟩
  · rcases starts_ran hp hx hpend hok hst with hst | hdone
    · exact Or.inl ⟨a, exec_message hx hm, Or.inr ⟨q, hst⟩⟩
    · exact Or.inr hdone

/-- A committed row gets its message. -/
theorem enqueuing_ran (h : Reach any c) (hp : c.procs pid = some (.op o k))
    (hx : jobSystem.exec pid c.w.st o r = some s)
    (he : enqueuing jobId = .op o k)
    (hok : ∀ e, (⟨pid, o, r⟩ : Event (TaskSig jobSig) Exc) ≠ ⟨pid, Sum.inr (JobOp.enqueueJob jobId), .error e⟩) :
    (∃ v, k r = .ret v) ∧ Waiting { c with w := c.w.after pid o r s, procs := upd c.procs pid (some (k r)) }
    jobId := by
  cases he
  rcases r with e | arqId
  · exact absurd rfl (hok e)
  · refine ⟨⟨_, rfl⟩, arqId, ?_⟩
    obtain ⟨hmarks, hd⟩ := task_did hx
    have hnew : (arqId, jobId) ∈ s.2.queue ∧ cronId arqId = false ∧ arqId ∉ (db c).issued := by
      generalize s.2 = t at hd ⊢
      cases hd with
      | enqueued _ hc hf => exact ⟨List.mem_cons_self, hc, hf⟩
      | answered h => exact h.elim
    refine ⟨hnew.1, Or.inl ?_⟩
    show s.1 arqId = none
    rw [hmarks]
    apply Classical.byContradiction
    intro hn
    rcases (messages h).marks arqId hn with hi | hc
    · exact hnew.2.2 hi
    · rw [hnew.2.1] at hc; cases hc

end Ran

theorem served_created {c : Config jobSystem} (h : Reach any c) (hs : Served c) {ch : Choice jobSystem}
    {pid jobId : Nat} {userId : Option String} {bucket keyPrefix filespaceId datastoreId : String}
    (he : event c ch = some ⟨pid, Sum.inr (JobOp.createJob userId bucket keyPrefix filespaceId datastoreId),
      .ok jobId⟩) :
    (step c ch).procs pid = some (enqueuing jobId) := by
  obtain ⟨k, s, hp, _, hstep⟩ := event_some he
  obtain ⟨u, b, kp, fs, ds, pool, ht, hk⟩ := @create_start _ h _ jobId _ _ _ _ _ _ hp
  have hpool := hs.pool pid u b kp fs ds pool ht
  subst hpool
  rw [hstep]
  exact (upd_same _ _ _).trans (congrArg some hk)

theorem served_ran {c : Config jobSystem} (h : Reach any c) (hs : Served c) {ch : Choice jobSystem}
    (ho : Orderly c ch)
    {e : Event (TaskSig jobSig) Exc} (he : event c ch = some e) : Served (step c ch) := by
  obtain ⟨k, s, hq, hx, hstep⟩ := event_some he
  refine ⟨fun pid u b kp fs ds pool ht => hs.pool pid u b kp fs ds pool (by rw [hstep] at ht; exact ht),
    fun pid jobId hcr hp => ?_⟩
  rcases created_step hcr with hcr | ⟨u, b, kp, fs, ds, hcr⟩
  · have hpend := pending_before h ch (created_lt h pid jobId hcr) hp
    rw [hstep] at hp ⊢
    obtain ⟨q, o, r⟩ := e
    have hok : ∀ x, r = .error x → ∀ a, ¬ Starts c q a jobId := by
      intro x h a hst
      subst h
      exact ho.answered q o x he a jobId hst hpend
    rcases hs.safe pid jobId hcr hpend with hnone | henq | ⟨⟨v, hret⟩, hw⟩
    · have hne : pid ≠ q := by rintro rfl; rw [hnone] at hq; cases hq
      exact Or.inl ((upd_ne _ _ hne).trans hnone)
    · by_cases hne : pid = q
      · subst hne
        rw [henq] at hq
        obtain ⟨⟨v, hv⟩, hw⟩ := enqueuing_ran h (henq.trans hq) hx (Option.some.inj hq) (by
          intro x hev
          rw [hev] at he
          exact ho.enqueued pid jobId x he hpend)
        exact Or.inr (Or.inr ⟨⟨v, (upd_same _ _ _).trans (congrArg some hv)⟩, hw⟩)
      · exact Or.inr (Or.inl ((upd_ne _ _ hne).trans henq))
    · have hne : pid ≠ q := by rintro rfl; rw [hret] at hq; cases hq
      refine Or.inr (Or.inr ⟨⟨v, (upd_ne _ _ hne).trans hret⟩, ?_⟩)
      rcases waiting_ran h hq hx hpend hok hw with hw | hdone
      · exact hw
      · exact absurd hp hdone
  · exact Or.inr (Or.inl (served_created h hs hcr))

theorem served_crash {c : Config jobSystem} (hs : Served c) {pid : Nat} (ho : Orderly c (.crash pid)) :
    Served (step c (.crash pid)) := by
  refine ⟨hs.pool, fun p jobId hcr hp => ?_⟩
  by_cases e : p = pid
  · exact Or.inl (by rw [e]; exact upd_same _ _ _)
  · rcases hs.safe p jobId hcr hp with hnone | henq | ⟨⟨v, hret⟩, hw⟩
    · exact Or.inl ((upd_ne _ _ e).trans hnone)
    · exact Or.inr (Or.inl ((upd_ne _ _ e).trans henq))
    · obtain ⟨a, hm, hst⟩ := hw
      refine Or.inr (Or.inr ⟨⟨v, (upd_ne _ _ e).trans hret⟩, a, hm, hst.imp_right ?_⟩)
      intro h
      obtain ⟨q, hst⟩ := h
      have hne : q ≠ pid := by
        intro h
        subst h
        exact ho.alive q rfl a jobId hst hp
      obtain ⟨ctx, x, ht, hj, hq, hx⟩ := hst
      exact ⟨q, ctx, x, ht, hj, (upd_ne _ _ hne).trans hq, hx⟩

theorem served_start {c : Config jobSystem} (h : Reach any c) (hs : Served c) {t : JobTask}
    (ho : Orderly c (.start t)) :
    Served (step c (.start t)) := by
  by_cases hst : jobSystem.starts c.w.st t = true
  · rw [start_step hst]
    refine ⟨fun p u b kp fs ds pool ht => ?_, fun p jobId hcr hp => ?_⟩
    · by_cases e : p = c.next
      · rw [e] at ht
        have ht : some t = _ := (upd_same c.task c.next (some t)).symm.trans ht
        cases ht
        exact ho.pool u b kp fs ds pool rfl
      · exact hs.pool p u b kp fs ds pool ((upd_ne c.task _ e).symm.trans ht)
    · have e : p ≠ c.next := by
        obtain ⟨_, _, _, _, _, he⟩ := hcr
        exact Nat.ne_of_lt ((fresh h).hist _ he)
      rcases hs.safe p jobId hcr hp with hnone | henq | ⟨⟨v, hret⟩, hw⟩
      · exact Or.inl ((upd_ne _ _ e).trans hnone)
      · exact Or.inr (Or.inl ((upd_ne _ _ e).trans henq))
      · obtain ⟨a, hm, hst⟩ := hw
        refine Or.inr (Or.inr ⟨⟨v, (upd_ne _ _ e).trans hret⟩, a, hm, hst.imp_right ?_⟩)
        intro h
        obtain ⟨q, ctx, x, ht, hj, hq, hx⟩ := h
        have hne : q ≠ c.next := by
          intro h
          subst h
          rw [(fresh h).procs _ (Nat.le_refl _)] at hq
          cases hq
        exact ⟨q, ctx, x, (upd_ne _ _ hne).trans ht, hj, (upd_ne _ _ hne).trans hq, hx⟩
  · rw [start_idle hst]
    exact hs

theorem served_env {c : Config jobSystem} (hs : Served c) {e : JobEnv} (ho : Orderly c (.env e)) :
    Served (step c (.env e)) := by
  cases hx : (db c).env e with
  | none =>
    have hx' : jobSystem.env c.w.st e = none := Option.map_eq_none_iff.mpr hx
    rw [env_idle hx']
    exact hs
  | some s =>
    have hx' : jobSystem.env c.w.st e = some (c.w.st.1, s) := Option.map_eq_some_iff.mpr ⟨s, hx, rfl⟩
    rw [env_step hx']
    refine ⟨hs.pool, fun p jobId hcr hp => ?_⟩
    have hpend : Pending c jobId := by
      show ((db c).jobs jobId).map Job.status = _
      rw [← (env_jobs hx).1]
      exact hp
    refine (hs.safe p jobId hcr hpend).imp_right (Or.imp_right fun ⟨hret, a, hm, hst⟩ => ⟨hret, a, ?_, hst⟩)
    show (a, jobId) ∈ s.queue
    cases e with
    | tick n => cases hx; exact hm
    | ack b =>
      cases hx
      refine List.mem_filter.mpr ⟨hm, ?_⟩
      have hne : a ≠ b := by
        intro h
        subst h
        exact ho.acked a jobId rfl hm hpend
      simpa using hne
    | requeue b j =>
      simp only [Db.env] at hx
      split at hx
      · cases hx; exact List.mem_cons_of_mem _ hm
      · cases hx

theorem served_step {c : Config jobSystem} (h : Reach any c) (hs : Served c) {ch : Choice jobSystem}
    (ho : Orderly c ch) :
    Served (step c ch) := by
  cases ch with
  | run pid ans =>
    cases he : event c (.run pid ans) with
    | none => rw [run_idle he]; exact hs
    | some e => exact served_ran h hs ho he
  | crash pid => exact served_crash hs ho
  | start t => exact served_start h hs ho
  | env e => exact served_env hs ho

theorem served {s : jobSystem.State} (hs : jobSystem.init s) {f : Sched jobSystem} {n : Nat}
    (hf : ∀ m < n, Orderly (conf s f m) (f m)) : Served (conf s f n) := by
  induction n with
  | zero => exact ⟨fun _ _ _ _ _ _ _ ht => (by cases ht), fun pid jobId ⟨_, _, _, _, _, he⟩ => (by cases he)⟩
  | succ n ih =>
    have hr : Reach any (conf s f n) := conf_reach hs fun _ _ _ _ => trivial
    exact served_step hr (ih fun m hm => hf m (by omega)) (hf n (by omega))

/-- In a run of orderly steps no dispatched job is orphaned at any moment. -/
theorem pending_served {s : jobSystem.State} (hs : jobSystem.init s) (f : Sched jobSystem) (n : Nat)
    (hf : ∀ m < n, Orderly (conf s f m) (f m)) : NoOrphan (conf s f n) := by
  have hsv := served hs hf
  refine ⟨fun pid jobId hcr hover hp => ?_, fun pid jobId e hcr hraise hp => ?_⟩
  · rcases hsv.safe pid jobId hcr hp with hnone | henq | ⟨_, hw⟩
    · rcases hover with ⟨v, hv⟩ | ⟨e, he⟩
      · rw [hnone] at hv; cases hv
      · rw [hnone] at he; cases he
    · rcases hover with ⟨v, hv⟩ | ⟨e, he⟩
      · rw [henq] at hv; cases hv
      · rw [henq] at he; cases he
    · exact hw
  · rcases hsv.safe pid jobId hcr hp with hnone | henq | ⟨⟨v, hret⟩, _⟩
    · rw [hnone] at hraise; cases hraise
    · rw [henq] at hraise; cases hraise
    · rw [hret] at hraise; cases hraise

/-- A step that performs a call which does not raise is orderly. -/
theorem orderly_run {c : Config jobSystem} {pid : Nat}
    {ans : jobSystem.State → (o : (TaskSig jobSig).Op) → Except Exc ((TaskSig jobSig).Ret o)}
    (h : ∀ p o e, event c (.run pid ans) ≠ some ⟨p, o, .error e⟩) : Orderly c (.run pid ans) :=
  ⟨fun _ _ _ _ _ _ he => (by cases he), fun p jobId e he => absurd he (h p _ e), fun p o e he => absurd he (h p o e),
    fun _ he => (by cases he), fun _ _ he => (by cases he)⟩

/-- One job is added and delivered. -/
def dispatched : Sched jobSystem := sched
  [.start (.addJob none "bucket" "" "filespace" "datastore" true), .run 0 (obey []), .run 0 (obey []),
    .start (.importJob ⟨some "a", none, none, false⟩ 0), .run 1 (obey []), .run 1 (obey [])]
  (.env (.tick 0))

theorem pending_served_dispatched : NoOrphan (conf noJobs dispatched 6) := by
  refine pending_served ⟨rfl, rfl, rfl⟩ dispatched 6 fun m hm => ?_
  match m with
  | 0 =>
    exact ⟨fun _ _ _ _ _ _ h => (by cases h; rfl), fun _ _ _ h => (by cases h), fun _ _ _ h => (by cases h),
      fun _ h => (by cases h), fun _ _ h => (by cases h)⟩
  | 1 => exact orderly_run fun p o e h => by cases h
  | 2 => exact orderly_run fun p o e h => by cases h
  | 3 =>
    exact ⟨fun _ _ _ _ _ _ h => (by cases h), fun _ _ _ h => (by cases h), fun _ _ _ h => (by cases h),
      fun _ h => (by cases h), fun _ _ h => (by cases h)⟩
  | 4 => exact orderly_run fun p o e h => by cases h
  | 5 => exact orderly_run fun p o e h => by cases h

/-! ## Orphans -/

/-- Valkey does not answer. -/
def unreachable (s : jobSystem.State) : (o : (TaskSig jobSig).Op) → Except Exc ((TaskSig jobSig).Ret o)
  | .inr (.enqueueJob _) => .error (.exception "ConnectionError")
  | o => obey [] s o

def withoutPool : Sched jobSystem := sched
  [.start (.addJob none "bucket" "" "filespace" "datastore" false), .run 0 (obey [])] (.env (.tick 0))

def enqueueRaises : Sched jobSystem := sched
  [.start (.addJob none "bucket" "" "filespace" "datastore" true), .run 0 (obey []), .run 0 unreachable]
    (.env (.tick 0))

/-- The worker stops after the commit of the marker. -/
def crashedMarked : Sched jobSystem := sched
  [.start (.addJob none "bucket" "" "filespace" "datastore" true), .run 0 (obey []), .run 0 (obey []),
    .start (.importJob ⟨some "a", none, none, false⟩ 0), .run 1 (obey []), .crash 1]
  (.env (.tick 0))

theorem not_waiting {c : Config jobSystem} {jobId : Nat} (h : (db c).queue = []) : ¬ Waiting c jobId := by
  intro h
  obtain ⟨a, hm, _⟩ := h
  rw [h] at hm
  cases hm

theorem orphaned_without_pool : ¬ NoOrphan (conf noJobs withoutPool 2) := fun h =>
  not_waiting rfl (h.waiting 0 0 ⟨_, _, _, _, _, List.mem_cons_self⟩ (Or.inl ⟨_, rfl⟩) rfl)

theorem orphaned_by_raise : ¬ NoOrphan (conf noJobs enqueueRaises 3) := fun h =>
  h.raised 0 0 _ ⟨_, _, _, _, _, List.mem_cons_of_mem _ List.mem_cons_self⟩ rfl rfl

theorem orphaned_by_crash : ¬ NoOrphan (conf noJobs crashedMarked 6) := by
  intro h
  obtain ⟨a, hm, hst⟩ := h.waiting 0 0
    ⟨_, _, _, _, _, List.mem_cons_of_mem _ (List.mem_cons_of_mem _ List.mem_cons_self)⟩ (Or.inl ⟨_, rfl⟩) rfl
  cases List.mem_singleton.mp hm
  rcases hst with hn | ⟨pid, ctx, p, ht, _, hp, _⟩
  · cases hn
  · match pid with
    | 0 => cases ht
    | 1 => cases hp
    | _ + 2 => cases ht

/-- Each gap orphans a job. -/
theorem job_orphaned : jobSystem.init noJobs ∧ ¬ NoOrphan (conf noJobs withoutPool 2) ∧
    ¬ NoOrphan (conf noJobs enqueueRaises 3) ∧ ¬ NoOrphan (conf noJobs crashedMarked 6) :=
  ⟨⟨rfl, rfl, rfl⟩, orphaned_without_pool, orphaned_by_raise, orphaned_by_crash⟩

end Connect.Worker
