/-
  Connect.Worker.StatusMonotone — when the status of a job only moves forward.

  Nothing compares the status a row has with the one it gets, so a cancelled, completed or
  failed row can be overwritten: by `cancel_job`, whose WHERE names no status, and by an
  `update_status` of `import_job`, which writes the column whenever it differs from the
  row it loaded. `StepOk` rules exactly these out, and `status_moves_forward_iff` says
  that in the runs without them, and in no others, every row moves
  pending → running → completed | failed | cancelled, or leaves pending for cancelled or
  failed, and then stays.

  That `completed` never meets a pending row needs no such condition: a run of
  `import_job` has written `running` before, and nothing writes `pending` again
  (`statusLaw`).
-/

import Connect.Worker.Guard
import Connect.Worker.ImportJob

namespace Connect.Worker

open Await

/-! ## No row goes back to pending -/

/-- No row beyond the id sequence. -/
def Ids (s : Db) : Prop := ∀ i, s.nextId ≤ i → s.jobs i = none

def NotPending (s : Db) (jobId : Nat) : Prop :=
  jobId < s.nextId ∧ ∀ row, s.jobs jobId = some row → row.status ≠ .pending

structure Advance (s s' : Db) : Prop where
  ids : s.nextId ≤ s'.nextId
  started : ∀ i, NotPending s i → NotPending s' i

/-- `import_job` completes no pending row, and only it writes a status with `update`. -/
def Writes (s : Db) : (o : JobOp) → Except Exc o.Ret → Prop
  | .flushJob jobId _ fields, .ok _ =>
    ∃ st, fields.status = some st ∧ (st = .running ∨ st = .completed ∨ st = .failed) ∧
    (st = .completed → NotPending s jobId)
  | _, _ => True

theorem Advance.refl (s : Db) : Advance s s := ⟨Nat.le_refl _, fun _ h => h⟩

theorem Advance.trans {a b c : Db} (h : Advance a b) (h' : Advance b c) : Advance a c :=
  ⟨Nat.le_trans h.ids h'.ids, fun i hi => h'.started i (h.started i hi)⟩

theorem put_ids {s : Db} {i : Nat} {current row : Job} (hs : Ids s) (hc : s.jobs i = some current) :
    Ids (s.put i row) := by
  intro j hj
  have hne : j ≠ i := by
    intro e
    rw [← e, hs j hj] at hc
    cases hc
  rw [put_jobs, upd_ne _ _ hne]
  exact hs j hj

theorem did_ids {s s' : Db} {o : JobOp} {r : Except Exc o.Ret} (h : Did s o r s') (hs : Ids s) :
    Ids s' ∧ s.nextId ≤ s'.nextId := by
  cases h with
  | @created _ _ _ _ _ id hid =>
    refine ⟨fun j hj => ?_, Nat.le_succ_of_le hid⟩
    have hlt : id < j := hj
    show upd s.jobs _ _ j = none
    rw [upd_ne _ _ (by omega)]
    exact hs j (by omega)
  | flushed hc =>
    split
    · exact ⟨hs, Nat.le_refl _⟩
    · exact ⟨put_ids hs hc, Nat.le_refl _⟩
  | cancelled hc _ => exact ⟨put_ids hs hc, Nat.le_refl _⟩
  | timedOut =>
    refine ⟨fun j hj => ?_, Nat.le_refl _⟩
    have := hs j hj
    simp [Db.timeoutStale, this]
  | deleted | cleared =>
    refine ⟨fun j hj => ?_, Nat.le_refl _⟩
    have := hs j hj
    simp [this]
  | enqueued | got | loaded | missed | raised | answered => exact ⟨hs, Nat.le_refl _⟩

theorem put_notPending {s : Db} {i : Nat} {current row : Job} (hc : s.jobs i = some current)
    (hp : row.status = .pending → current.status = .pending) {j : Nat} (hj : NotPending s j) :
    NotPending (s.put i row) j := by
  refine ⟨hj.1, fun row' hr => ?_⟩
  rw [put_jobs] at hr
  by_cases e : j = i
  · subst e
    simp only [upd_same, Option.some.injEq] at hr
    subst hr
    exact fun h => hj.2 current hc (hp h)
  · rw [upd_ne _ _ e] at hr
    exact hj.2 row' hr

theorem did_advance {s s' : Db} {o : JobOp} {r : Except Exc o.Ret} (h : Did s o r s') (hs : Ids s)
    (hw : Writes s o r) :
    Advance s s' := by
  refine ⟨(did_ids h hs).2, fun j hj => ?_⟩
  cases h with
  | @created _ _ _ _ _ id hid =>
    have hlt := hj.1
    have hne : j ≠ id := by omega
    refine ⟨by simp; omega, fun row hr => ?_⟩
    rw [put_jobs, upd_ne _ _ hne] at hr
    exact hj.2 row hr
  | @flushed i loaded current fields hc =>
    obtain ⟨st, hst, hwst, _⟩ := hw
    split
    · exact hj
    · refine put_notPending hc (fun hp => ?_) hj
      rw [flush_status _ _ hst] at hp
      split at hp
      · exact hp
      · rcases hwst with rfl | rfl | rfl <;> cases hp
  | cancelled hc _ => exact put_notPending hc (fun hp => by cases hp) hj
  | timedOut =>
    refine ⟨hj.1, fun row hr => ?_⟩
    obtain ⟨row', hr', rfl⟩ := Option.map_eq_some_iff.mp hr
    split
    · simp
    · exact hj.2 row' hr'
  | deleted | cleared => exact ⟨hj.1, fun row hr => hj.2 row (Option.eq_some_of_filter_eq_some hr)⟩
  | enqueued | got | loaded | missed | raised | answered => exact hj

/-! ## The law of the tasks -/

abbrev JobWorld := World jobs

def statusGuar (a b : JobWorld) : Prop :=
  Ids b.st ∧ Advance a.st b.st ∧ ∀ e, b.hist = e :: a.hist → Writes a.st e.op e.ans

abbrev statusTaskLaw (pid : Nat) : Law JobWorld jobSig Exc :=
  jobs.law (fun w => Ids w.st) (fun _ a b => Advance a.st b.st) (fun _ a b => statusGuar a b)
    (fun _ _ _ _ => True) pid

/-- What an operation does, for a law of `jobs`. -/
theorem act_did {pid : Nat} {inv : JobWorld → Prop} {rely guar : Nat → JobWorld → JobWorld → Prop}
    {allow : Nat → JobWorld → (o : JobOp) → Except Exc o.Ret → Prop} {w w' : JobWorld} {o : JobOp}
    {r : Except Exc o.Ret} (h : (jobs.law inv rely guar allow pid).act w o r w') :
    allow pid w o r ∧ Did w.st o r w'.st ∧ w'.hist = ⟨pid, o, r⟩ :: w.hist := by
  obtain ⟨hal, s, hx, rfl⟩ := h
  exact ⟨hal, exec_did hx, rfl⟩

theorem act_guar {pid : Nat} {w w' : JobWorld} {o : JobOp} {r : Except Exc o.Ret} (hi : Ids w.st)
    (ha : (statusTaskLaw pid).act w o r w') (hw : Writes w.st o r) : statusGuar w w' := by
  obtain ⟨_, hd, hh⟩ := act_did ha
  refine ⟨(did_ids hd hi).1, did_advance hd hi hw, fun e he => ?_⟩
  rw [hh] at he
  cases he
  exact hw

def NoUpdate : JobOp → Prop
  | .flushJob _ _ _ => False
  | _ => True

theorem wp_others {pid : Nat} {α : Type} {p : JobProg α} (hp : p.Uses NoUpdate) (w : JobWorld) :
    wp (statusTaskLaw pid) p (fun _ _ => True) w := by
  apply wp_uses (O := NoUpdate) (P := fun _ => True)
  · exact fun _ _ _ _ => trivial
  · intro w o r w' ho _ hi ha
    refine ⟨act_guar hi ha ?_, trivial⟩
    cases o with
    | flushJob i l f => exact ho.elim
    | _ => trivial
  · exact hp
  · trivial

/-- After the first write of a run its row is not pending, and stays so. -/
theorem wp_started {pid jobId : Nat} {α : Type} {p : JobProg α} (hp : p.Uses (WorkerOp jobId)) {w : JobWorld}
    (hw : NotPending w.st jobId) : wp (statusTaskLaw pid) p (fun _ w => NotPending w.st jobId) w := by
  apply wp_uses (O := WorkerOp jobId) (P := fun w : JobWorld => NotPending w.st jobId)
  · exact fun a b hr h => Advance.started hr jobId h
  · intro w o r w' ho hn hi ha
    have hg : statusGuar w w' := by
      refine act_guar hi ha ?_
      cases o with
      | flushJob i l f =>
        rcases ho with ⟨rfl, ⟨st, hst, hwst⟩, _⟩ | ⟨_, _, h⟩
        · cases r with
          | ok _ => exact ⟨st, hst, hwst, fun _ => hn⟩
          | error _ => trivial
        · cases h
      | _ => trivial
    exact ⟨hg, hg.2.1.started _ hn⟩
  · exact hp
  · exact hw

theorem wp_firstWrite {pid jobId : Nat} {w : JobWorld} (hw : jobId < w.st.nextId) :
    wp (statusTaskLaw pid) (updateStatus jobId .running {})
      (fun x w => ∀ row, x = .ok row → NotPending w.st jobId) w := by
  refine wp_bind.mpr (wp_await fun w₁ (hr₁ : Advance w.st w₁.st) hi₁ r w₂ ha₁ => ?_)
  have hg₁ := act_guar hi₁ ha₁ trivial
  obtain ⟨_, hd, _⟩ := act_did ha₁
  refine ⟨hg₁, ?_⟩
  have hlt : jobId < w₁.st.nextId := Nat.lt_of_lt_of_le hw hr₁.ids
  generalize hst₂ : w₂.st = s₂ at hd
  cases hd with
  | raised => intro row h; cases h
  | answered h => exact h.elim
  | loaded =>
    cases hl : w₁.st.jobs jobId with
    | none =>
      intro row _
      exact ⟨hst₂ ▸ hlt, fun row hr => by rw [hst₂, hl] at hr; cases hr⟩
    | some loaded =>
      refine wp_bind.mpr (wp_await fun w₃ (hr₃ : Advance w₂.st w₃.st) hi₃ r w₄ ha₃ => ?_)
      have hg₃ : statusGuar w₃ w₄ := act_guar hi₃ ha₃ (by
        cases r with
        | ok _ => exact ⟨.running, rfl, Or.inl rfl, fun h => by cases h⟩
        | error _ => trivial)
      obtain ⟨_, hd, _⟩ := act_did ha₃
      refine ⟨hg₃, ?_⟩
      have hlt₄ : jobId < w₄.st.nextId :=
        Nat.lt_of_lt_of_le hlt (Nat.le_trans hg₁.2.1.ids (Nat.le_trans hr₃.ids hg₃.2.1.ids))
      generalize hst₄ : w₄.st = s₄ at hd hlt₄
      cases hd with
      | raised => intro row h; cases h
      | answered h => exact h.elim
      | @flushed _ _ current _ hc =>
        intro row _
        rw [hst₄]
        refine ⟨hlt₄, fun row hr => ?_⟩
        have hstat : row.status = if Status.running = loaded.status then current.status else .running := by
          rw [flush_jobs _ hc, upd_same, Option.some.injEq] at hr
          rw [← hr]
          exact flush_status _ _ rfl
        rw [hstat]
        split
        · -- the loaded row was running, so the current one is no longer pending
          rename_i he
          refine (hr₃.started jobId ⟨hst₂ ▸ hlt, fun row hr => ?_⟩).2 current hc
          rw [hst₂, hl] at hr
          cases hr
          rw [← he]; simp
        · simp

theorem wp_importJob {pid jobId : Nat} {ctx : Ctx} {w : JobWorld} :
    wp (statusTaskLaw pid) (importJob ctx jobId) (fun _ _ => True) w := by
  refine wp_bind.mpr (wp_bind.mpr (wp_await fun w₁ _ hi₁ r w₂ ha₁ => ?_))
  have hg₁ := act_guar hi₁ ha₁ trivial
  obtain ⟨_, hd, _⟩ := act_did ha₁
  refine ⟨hg₁, ?_⟩
  generalize hst₂ : w₂.st = s₂ at hd
  cases hd with
  | raised => trivial
  | answered h => exact h.elim
  | got =>
    cases hl : w₁.st.jobs jobId with
    | none =>
      exact wp_others (p := publishLog ctx (.notFound jobId) >>=
        fun _ => pure (JobResult.error s!"Job {jobId} not found"))
        (.bind (uses_publishLog trivial) fun _ => trivial) w₂
    | some row =>
      have hlt : jobId < w₂.st.nextId := by
        rw [hst₂]
        rcases Nat.lt_or_ge jobId w₁.st.nextId with hlt | hge
        · exact hlt
        · rw [hi₁ jobId hge] at hl; cases hl
      refine wp_bind.mpr (wp_mono ?_ (wp_firstWrite hlt))
      intro x w₃ hx
      cases x with
      | error e => trivial
      | ok row =>
        refine wp_mono (fun _ _ _ => trivial) (wp_started ?_ (hx row rfl))
        exact .bind (uses_publishLog (Or.inl trivial)) fun _ => uses_tryImport _

theorem taskOp_noUpdate (t : JobTask) : (∃ ctx jobId, t = .importJob ctx jobId) ∨ ∀ o, TaskOp t o → NoUpdate o := by
  cases t with
  | importJob ctx jobId => exact Or.inl ⟨ctx, jobId, rfl⟩
  | addJob => right; rintro o (rfl | ⟨_, rfl⟩) <;> trivial
  | timeoutStaleJobs => right; rintro o (rfl | ⟨_, rfl⟩ | ⟨_, rfl⟩) <;> trivial
  | cancelJob | deleteJob | clearJobs => right; rintro o rfl; trivial

def statusLaw : Sound jobs any where
  inv w := Ids w.st
  rely _ a b := Advance a.st b.st
  guar _ _ a b := statusGuar a b
  allow _ _ _ _ := True
  post _ _ _ _ := True
  refl _ _ := .refl _
  trans _ _ _ _ := .trans
  init s hs i _ := by rw [show s.jobs = _ from hs.1]
  keep _ _ _ _ _ hg := hg.1
  others _ _ _ _ _ _ _ hg := hg.2.1
  outside w e s hi hx := by
    obtain ⟨hj, hn, _⟩ := env_jobs hx
    have had : Advance w.st s := ⟨Nat.le_of_eq hn.symm, fun i h => ⟨hn ▸ h.1, hj ▸ h.2⟩⟩
    exact ⟨fun i h => by rw [show s.jobs = _ from hj]; exact hi i (hn ▸ h), fun _ => had⟩
  allowed _ _ _ := trivial
  stable _ _ _ _ _ _ _ := trivial
  code pid t w hi _ _ := by
    rcases taskOp_noUpdate t with ⟨ctx, jobId, rfl⟩ | h
    · refine wp_bind.mpr (wp_mono ?_ wp_importJob)
      intro x _ _
      cases x <;> trivial
    · exact wp_others ((uses_code t).mono h) w

/-! ## Runs -/

abbrev db (c : Config jobSystem) : Db := c.w.st.2

def status (s : Db) (jobId : Nat) : Option Status := (s.jobs jobId).map Job.status

abbrev statusRunLaw : Sound jobSystem any := guardLaw statusLaw any fun _ _ _ _ _ => trivial

theorem reach_ids {c : Config jobSystem} (h : Reach any c) : Ids (db c) := (statusRunLaw.keeps h).1

/-- What a step of the system does to the tables. -/
theorem step_db {c : Config jobSystem} (h : Reach any c) (ch : Choice jobSystem) :
    (∃ e b, event c ch = some e ∧ bodyEvent e = some b ∧ Did (db c) b.op b.ans (db (step c ch)) ∧
      Writes (db c) b.op b.ans) ∨
    ((∀ e, event c ch = some e → bodyEvent e = none) ∧ (db (step c ch)).jobs = (db c).jobs ∧
      (db (step c ch)).nextId = (db c).nextId) := by
  rcases step_inner c ch with ⟨e, b, he, hb, hx, heq⟩ | ⟨hn, _, hst | ⟨ev, hev⟩⟩
  · refine Or.inl ⟨e, b, he, hb, exec_did hx, ?_⟩
    obtain ⟨k, s, hp, hex, hstep⟩ := event_some he
    obtain ⟨_, _, hg⟩ := statusRunLaw.promise h hp hex trivial
    rw [show c.w.after e.pid e.op e.ans s = (step c ch).w by rw [hstep]] at hg
    rcases hg with hg | hsame
    · exact hg.2.2 b (by rw [heq]; rfl)
    · rw [heq] at hsame
      have := congrArg (List.length ∘ World.hist) hsame
      simp [World.after] at this
  · exact Or.inr ⟨hn, congrArg Db.jobs hst, congrArg Db.nextId hst⟩
  · exact Or.inr ⟨hn, (env_jobs hev).1, (env_jobs hev).2.1⟩

/-- Every operation of a run is one of some task. -/
theorem event_op {P : JobOp → Prop} (hP : ∀ t o, TaskOp t o → P o) {c : Config jobSystem} (h : Reach any c)
    {ch : Choice jobSystem} {e : Event (TaskSig jobSig) Exc} {b : Event jobSig Exc} (he : event c ch = some e)
    (hb : bodyEvent e = some b) : P b.op := by
  have hcode : ∀ pid t, (jobSystem.code pid t).Uses (BodyOp P) := fun pid t =>
    uses_guarded (H := jobs) ((uses_code t).mono (hP t))
  obtain ⟨k, s, hp, _, _⟩ := event_some he
  have hu := (procs_use (fun _ => BodyOp P) hcode h e.pid _ hp).1
  obtain ⟨pid, o | o, r⟩ := e
  · cases hb
  · cases hb; exact hu

/-- The moves of one row: pending → running → completed | failed | cancelled, from pending
    also to cancelled or failed, and deletion. -/
inductive Moves : Option Status → Option Status → Prop
  | stays (x : Option Status) : Moves x x
  | created : Moves none (some .pending)
  | started : Moves (some .pending) (some .running)
  | finished {st : Status} : st.terminal = true → Moves (some .running) (some st)
  | cancelled : Moves (some .pending) (some .cancelled)
  | failed : Moves (some .pending) (some .failed)
  | deleted (x : Option Status) : Moves x none

/-- The step overwrites no terminal status: `cancel_job` finds its row not completed or
    failed, and an UPDATE of `update_status` that sets the status finds no other terminal
    one in the row. -/
def StatusOk (s : Db) : (o : JobOp) → Except Exc o.Ret → Prop
  | .cancelJob jobId _, .ok true => ∀ row, s.jobs jobId = some row → row.status ≠ .completed ∧ row.status ≠ .failed
  | .flushJob jobId loaded fields, .ok _ =>
    ∀ row st, s.jobs jobId = some row → (fields.differing loaded).status = some st →
    row.status.terminal = true → row.status = st
  | _, _ => True

instance (s : Db) (o : JobOp) (r : Except Exc o.Ret) : Decidable (StatusOk s o r) :=
  match o, r with
  | .cancelJob jobId _, .ok true =>
    inferInstanceAs (Decidable (∀ row ∈ s.jobs jobId, row.status ≠ .completed ∧ row.status ≠ .failed))
  | .flushJob jobId loaded fields, .ok _ =>
    decidable_of_iff (∀ row ∈ s.jobs jobId, ∀ st ∈ (fields.differing loaded).status,
      row.status.terminal = true → row.status = st)
      ⟨fun h row st hrow => h row hrow st, fun h row hrow st => h row st hrow⟩
  | .cancelJob _ _, .ok false | .cancelJob _ _, .error _ | .flushJob _ _ _, .error _ | .createJob _ _ _ _ _, _
  | .getJob _, _ | .loadJob _ _, _ | .timeoutStale _, _ | .deleteForUser _ _, _ | .clearCompletedForUser _, _
  | .now, _ | .publish _, _ | .enqueueJob _, _ | .loadLlToken _, _ | .getUserToken _, _ | .getLucidlinkToken, _
  | .getDatastoreCredentials _ _, _ | .getUserSetting _ _, _ | .newS3Service _ _ _ _, _ | .listAllObjects _ _, _
  | .ensureStructure _, _ | .importFile _ _, _ | .close, _ | .sleep, _ => .isTrue trivial

theorem moves_terminal {a b : Status} (h : Moves (some a) (some b)) (ha : a.terminal = true) : a = b := by
  cases h with
  | stays => rfl
  | started => cases ha
  | finished => cases ha
  | cancelled => cases ha
  | failed => cases ha

theorem put_moves {s : Db} {i : Nat} {current row : Job} (hc : s.jobs i = some current)
    (hm : Moves (some current.status) (some row.status)) (j : Nat) : Moves (status s j) (status (s.put i row) j) := by
  by_cases e : j = i
  · subst e
    simpa only [status, put_jobs, upd_same, hc, Option.map_some] using hm
  · simpa only [status, put_jobs, upd_ne _ _ e] using Moves.stays _

theorem remove_moves (s : Db) (p : Nat → Job → Bool) (j : Nat) : Moves (status s j) (status (s.remove p) j) := by
  simp only [status, remove_jobs]
  cases hj : s.jobs j with
  | none => exact .stays _
  | some row =>
    simp only [Option.filter]
    split
    · exact .stays _
    · exact .deleted _

theorem timeoutStale_moves (s : Db) (cutoff j : Nat) : Moves (status s j) (status (s.timeoutStale cutoff) j) := by
  simp only [status, Db.timeoutStale]
  cases hj : s.jobs j with
  | none => exact .stays _
  | some row =>
    simp only [Option.map_some]
    split
    · rename_i hstale
      have : row.status = .running := by simp [Job.stale] at hstale; exact hstale.1
      rw [this]
      exact .finished rfl
    · exact .stays _

/-- What `import_job` writes moves a row forward: never 'completed' over a pending row, and
    nothing over another terminal status. -/
theorem write_moves {current st : Status} (hst : st = .running ∨ st = .completed ∨ st = .failed)
    (hpending : st = .completed → current ≠ .pending) (hterm : current.terminal = true → current = st) :
    Moves (some current) (some st) := by
  cases current with
  | pending =>
    rcases hst with rfl | rfl | rfl
    · exact .started
    · exact absurd rfl (hpending rfl)
    · exact .failed
  | running =>
    rcases hst with rfl | rfl | rfl
    · exact .stays _
    · exact .finished rfl
    · exact .finished rfl
  | completed | failed | cancelled =>
    rw [hterm rfl]
    exact .stays _

theorem flush_moves_iff {s : Db} {i : Nat} {loaded current row : Job} {fields : JobFields}
    (hc : s.jobs i = some current) (hw : Writes s (.flushJob i loaded fields) (.ok row)) :
    StatusOk s (.flushJob i loaded fields) (.ok row) ↔ ∀ j, Moves (status s j)
      (status (if fields.differing loaded = {} then s else s.put i ((fields.differing loaded).apply current)) j) := by
  obtain ⟨st, hst, hwst, hcomp⟩ := hw
  have hnew := flush_status loaded current hst
  have hdiff : (fields.differing loaded).status = if st = loaded.status then none else some st := by
    by_cases e : st = loaded.status <;> simp [JobFields.differing, hst, Option.filter, e]
  have hstat : ∀ j, status (if fields.differing loaded = {} then s else s.put i
      ((fields.differing loaded).apply current)) j
      = if j = i then some (if st = loaded.status then current.status else st) else status s j := by
    intro j
    simp only [status, flush_jobs _ hc]
    by_cases e : j = i
    · subst e; simp [hnew]
    · simp [e]
  constructor
  · intro hok j
    rw [hstat j]
    split
    · rename_i e
      subst e
      rw [status, hc, Option.map_some]
      split
      · exact .stays _
      · rename_i hne
        exact write_moves hwst (fun e => (hcomp e).2 current hc) (hok current st hc (by rw [hdiff, if_neg hne]))
    · exact .stays _
  · intro hm row st' hrow hd hterm
    rw [hc] at hrow
    cases hrow
    rw [hdiff] at hd
    split at hd
    · cases hd
    · rename_i hne
      cases hd
      have := hm i
      rw [hstat i, if_pos rfl, if_neg hne, status, hc] at this
      exact moves_terminal this hterm

theorem cancel_moves_iff {s : Db} {i : Nat} {u : Option String} {row : Job} (hc : s.jobs i = some row) :
    StatusOk s (.cancelJob i u) (.ok true) ↔
    ∀ j, Moves (status s j) (status (s.put i { row with status := .cancelled }) j) := by
  constructor
  · intro hok
    refine put_moves hc ?_
    show Moves (some row.status) (some .cancelled)
    obtain ⟨h₁, h₂⟩ := hok row hc
    cases hcur : row.status with
    | pending => exact .cancelled
    | running => exact .finished rfl
    | cancelled => exact .stays _
    | completed => exact absurd hcur h₁
    | failed => exact absurd hcur h₂
  · intro hm row' hrow
    rw [hc] at hrow
    cases hrow
    have := hm i
    simp only [status, put_jobs, upd_same, hc, Option.map_some] at this
    constructor <;> intro hcur <;> rw [hcur] at this <;> cases moves_terminal this rfl

theorem did_moves_iff {s s' : Db} {o : JobOp} {r : Except Exc o.Ret} (h : Did s o r s') (hs : Ids s)
    (hw : Writes s o r) :
    StatusOk s o r ↔ ∀ i, Moves (status s i) (status s' i) := by
  cases h with
  | @created _ _ _ _ _ id hid =>
    refine iff_of_true trivial fun i => ?_
    by_cases e : i = id
    · subst e
      simpa only [status, put_jobs, upd_same, hs i hid, Option.map_none, Option.map_some, newJob] using Moves.created
    · simpa only [status, put_jobs, upd_ne _ _ e] using Moves.stays _
  | flushed hc => exact flush_moves_iff hc hw
  | cancelled hc _ => exact cancel_moves_iff hc
  | timedOut => exact iff_of_true trivial (timeoutStale_moves s _)
  | deleted => exact iff_of_true trivial (remove_moves s _)
  | cleared => exact iff_of_true trivial (remove_moves s _)
  | enqueued => exact iff_of_true trivial fun _ => .stays _
  | @raised o e => exact iff_of_true (by cases o <;> trivial) fun _ => .stays _
  | @answered o r h => exact iff_of_true (by cases o <;> trivial) fun _ => .stays _
  | got | loaded | missed => exact iff_of_true trivial fun _ => .stays _

/-- A row that was deleted does not come back. -/
theorem did_gone {s s' : Db} {o : JobOp} {r : Except Exc o.Ret} (h : Did s o r s') {i : Nat} (hi : i < s.nextId)
    (hn : s.jobs i = none) : s'.jobs i = none := by
  cases h with
  | @created _ _ _ _ _ id hid =>
    have : i ≠ id := by omega
    simpa only [put_jobs, upd_ne _ _ this] using hn
  | @flushed j _ _ _ hc =>
    have : i ≠ j := by rintro rfl; rw [hn] at hc; cases hc
    rw [flush_jobs _ hc, upd_ne _ _ this]
    exact hn
  | @cancelled j _ _ hc _ =>
    have : i ≠ j := by rintro rfl; rw [hn] at hc; cases hc
    rw [put_jobs, upd_ne _ _ this]
    exact hn
  | timedOut => simp only [Db.timeoutStale, hn, Option.map_none]
  | deleted | cleared => simp only [remove_jobs, hn, Option.filter_none]
  | enqueued | got | loaded | missed | raised | answered => exact hn

/-- The status of every job of the run only moves forward, and a terminal one is final. -/
structure Monotone (s : jobSystem.State) (f : Sched jobSystem) : Prop where
  forward : ∀ n i, Moves (status (db (conf s f n)) i) (status (db (conf s f (n + 1))) i)
  final : ∀ m n i st, m ≤ n → status (db (conf s f m)) i = some st → st.terminal = true →
    status (db (conf s f n)) i = some st ∨ status (db (conf s f n)) i = none

theorem forward_final {s : jobSystem.State} {f : Sched jobSystem} (hr : ∀ n, Reach any (conf s f n))
    (hf : ∀ n i, Moves (status (db (conf s f n)) i) (status (db (conf s f (n + 1))) i)) {m n i : Nat} {st : Status}
    (hmn : m ≤ n) (hst : status (db (conf s f m)) i = some st) (ht : st.terminal = true) :
    i < (db (conf s f n)).nextId ∧ (status (db (conf s f n)) i = some st ∨ (db (conf s f n)).jobs i = none) := by
  induction n with
  | zero =>
    cases Nat.le_zero.mp hmn
    refine ⟨?_, Or.inl hst⟩
    rcases Nat.lt_or_ge i (db (conf s f 0)).nextId with h | h
    · exact h
    · rw [status, reach_ids (hr 0) i h] at hst; cases hst
  | succ n ih =>
    rcases Nat.lt_or_ge n m with hlt | hge
    · have : m = n + 1 := by omega
      subst this
      refine ⟨?_, Or.inl hst⟩
      rcases Nat.lt_or_ge i (db (conf s f (n + 1))).nextId with h | h
      · exact h
      · rw [status, reach_ids (hr (n + 1)) i h] at hst; cases hst
    · obtain ⟨hi, hrow⟩ := ih hge
      rcases step_db (hr n) (f n) with ⟨_, b, _, _, hd, hw⟩ | ⟨_, hj, hn⟩
      · refine ⟨Nat.lt_of_lt_of_le hi (did_ids hd (reach_ids (hr n))).2, ?_⟩
        rcases hrow with hrow | hrow
        · have := hf n i
          rw [hrow] at this
          cases hnext : status (db (conf s f (n + 1))) i with
          | none => exact Or.inr (by simpa [status] using hnext)
          | some st' => rw [hnext] at this; exact Or.inl (by rw [moves_terminal this ht])
        · exact Or.inr (did_gone hd hi hrow)
      · exact ⟨Nat.lt_of_lt_of_eq hi hn.symm,
          hrow.imp (fun h => by rw [← h, status, status]; exact congrArg _ (congrFun hj i))
          fun h => (congrFun hj i).trans h⟩

/-- A run's job statuses only move forward exactly when no step overwrites a terminal one. -/
theorem status_moves_forward_iff {s : jobSystem.State} (hs : jobSystem.init s) (f : Sched jobSystem) :
    Monotone s f ↔ ∀ n e b, event (conf s f n) (f n) = some e → bodyEvent e = some b →
      StatusOk (db (conf s f n)) b.op b.ans := by
  have hr : ∀ n, Reach any (conf s f n) := fun n => conf_reach hs fun _ _ _ _ => trivial
  have hstep : ∀ n, (∀ i, Moves (status (db (conf s f n)) i) (status (db (conf s f (n + 1))) i)) ↔
      ∀ e b, event (conf s f n) (f n) = some e → bodyEvent e = some b → StatusOk (db (conf s f n)) b.op b.ans := by
    intro n
    rcases step_db (hr n) (f n) with ⟨e, b, he, hb, hd, hw⟩ | ⟨hn, hj, _⟩
    · refine (did_moves_iff hd (reach_ids (hr n)) hw).symm.trans ⟨fun h e' b' he' hb' => ?_, fun h => h e b he hb⟩
      rw [he] at he'
      cases he'
      rw [hb] at hb'
      cases hb'
      exact h
    · refine iff_of_true (fun i => ?_) fun e b he hb => ?_
      · have : status (db (conf s f (n + 1))) i = status (db (conf s f n)) i := congrArg _ (congrFun hj i)
        rw [this]
        exact .stays _
      · rw [hn e he] at hb; cases hb
  constructor
  · exact fun h n => (hstep n).mp (h.forward n)
  · intro h
    have hf := fun n => (hstep n).mpr (h n)
    exact ⟨hf, fun m n i st hmn hst ht => (forward_final hr hf hmn hst ht).2.imp id fun h => by simp [status, h]⟩

/-- Two jobs of one key: the first is cancelled behind its batch, the second completes. -/
def twoJobs : List (Choice jobSystem) :=
  let works := fun pid k => List.replicate k (Choice.run (M := jobSystem) pid (obey ["key"]))
  [.start (.addJob none "bucket" "" "filespace" "datastore" true)] ++ works 0 2 ++
    [.start (.addJob none "bucket" "" "filespace" "datastore" true)] ++ works 1 2 ++
    [.start (.importJob ⟨some "a", none, none, false⟩ 0), .start (.importJob ⟨some "aa", none, none, false⟩ 1)] ++
    works 2 17 ++ works 3 9 ++ [.start (.cancelJob 0 none)] ++ works 4 1 ++ works 2 4 ++ works 3 14

theorem status_moves_forward_twoJobs :
    Monotone noJobs (sched twoJobs (.env (.tick 1))) ∧
      status (db (conf noJobs (sched twoJobs (.env (.tick 1))) 54)) 0 = some .cancelled ∧
      status (db (conf noJobs (sched twoJobs (.env (.tick 1))) 54)) 1 = some .completed := by
  have hpass : passes (checked fun w b => decide (StatusOk w.st b.op b.ans)) (start noJobs) twoJobs = true := by
    decide +kernel
  refine ⟨(status_moves_forward_iff ⟨rfl, rfl, rfl⟩ _).mpr fun n e b he hb => ?_,
    by decide +kernel, by decide +kernel⟩
  rcases Nat.lt_or_ge n twoJobs.length with hlt | hge
  · exact of_decide_eq_true (checked_body (passes_conf hpass hlt) he hb)
  · rw [sched_rest hge] at he
    cases he

/-- A job is cancelled after `import_job` has read its row and before it writes `running`. -/
def overtaken : Sched jobSystem := sched
  [.start (.addJob none "bucket" "" "filespace" "datastore" true), .run 0 (obey []), .run 0 (obey []),
    .start (.importJob ⟨some "a", none, none, false⟩ 0), .run 1 (obey []), .run 1 (obey []), .run 1 (obey []),
    .start (.cancelJob 0 none), .run 2 (obey []), .run 1 (obey []), .run 1 (obey [])]
  (.env (.tick 1))

theorem status_leaves_cancelled :
    status (db (conf noJobs overtaken 10)) 0 = some .cancelled ∧
    status (db (conf noJobs overtaken 11)) 0 = some .running ∧
      ¬ Monotone noJobs overtaken := by
  have h₀ : status (db (conf noJobs overtaken 10)) 0 = some .cancelled := by decide
  have h₁ : status (db (conf noJobs overtaken 11)) 0 = some .running := by decide
  refine ⟨h₀, h₁, fun h => ?_⟩
  have := h.forward 10 0
  rw [h₀, h₁] at this
  cases this

end Connect.Worker
