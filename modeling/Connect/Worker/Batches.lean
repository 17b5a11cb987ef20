/-
  Connect.Worker.Batches — the progress of a folder job (`_import_job_body`,
  services/worker.py), counted.

  The keys of the listing are imported in batches of 25 in their order, each once, and
  behind every batch a row is committed whose counters are the outcomes so far
  (`batches_accounted`): imported or existing in `completed_files`, any other in
  `failed_files`. It holds for every list of keys but the empty one and every assignment
  of outcomes to them, in a run in which nothing else raises, and nobody cancels or
  deletes the job; the stale-job cron may mark it failed at any time.

  An empty listing has no batch: the job returns at once, without the counts, and leaves
  the counters of its row as they are. A log line that Valkey does not take ends the body
  between two batches.
-/

import Connect.Worker.Settled

namespace Connect.Worker

open Await

/-! ## What an outcome counts as -/

inductive ImportOutcome where
  | imported
  | existing
  | failed
  deriving DecidableEq, Repr

/-- What `import_file` comes to: its code and text, or the exception it raises. -/
abbrev Result := Except Exc (Nat × String)

def outcomeOf : Result → ImportOutcome
  | .error _ => .failed
  | .ok (code, errorMsg) =>
    if code = 200 ∨ code = 201 then .imported
    else if code = 409 then .existing
    else if code = 400 ∧ inLower "already exists" errorMsg = true then .existing
    else .failed

def countOf (o : ImportOutcome) (results : List Result) : Nat := results.countP fun r => outcomeOf r == o

/-- Those that `completed_files` counts. -/
def accepted (results : List Result) : Nat := countOf .imported results + countOf .existing results

theorem countOf_cons (o : ImportOutcome) (r : Result) (rs : List Result) :
    countOf o (r :: rs) = countOf o rs + if outcomeOf r = o then 1 else 0 := by
  simp [countOf, List.countP_cons]

theorem countOf_append (o : ImportOutcome) (rs rs' : List Result) :
    countOf o (rs ++ rs') = countOf o rs + countOf o rs' :=
  List.countP_append

theorem accepted_add_failed (results : List Result) :
    accepted results + countOf .failed results = results.length := by
  unfold accepted
  induction results with
  | nil => rfl
  | cons r rs ih =>
    simp only [countOf_cons, List.length_cons]
    cases outcomeOf r <;> simp <;> omega

theorem add_counts (t : Tally) (r : Result) :
    (t.add r).new = t.new + (if outcomeOf r = .imported then 1 else 0) ∧
      (t.add r).skipped = t.skipped + (if outcomeOf r = .existing then 1 else 0) ∧
      (t.add r).failed = t.failed + (if outcomeOf r = .failed then 1 else 0) := by
  unfold Tally.add outcomeOf
  rcases r with e | ⟨code, errorMsg⟩
  · simp [Tally.fail]
  · simp only
    split
    · simp
    · split
      · simp
      · split
        · simp
        · simp [Tally.fail]

theorem tally_counts (results : List Result) :
    (tally results).new = countOf .imported results ∧ (tally results).skipped = countOf .existing results ∧
      (tally results).failed = countOf .failed results := by
  have hfold : ∀ t : Tally, (results.foldl Tally.add t).new = t.new + countOf .imported results ∧
      (results.foldl Tally.add t).skipped = t.skipped + countOf .existing results ∧
      (results.foldl Tally.add t).failed = t.failed + countOf .failed results := by
    induction results with
    | nil => exact fun t => ⟨rfl, rfl, rfl⟩
    | cons r rs ih =>
      intro t
      obtain ⟨hnew, hskipped, hfailed⟩ := add_counts t r
      obtain ⟨ihnew, ihskipped, ihfailed⟩ := ih (t.add r)
      simp only [List.foldl_cons, countOf_cons]
      omega
  simpa [tally] using hfold ⟨0, 0, 0, none⟩

/-- The four running totals over the outcomes so far. -/
def Progress.of (results : List Result) : Progress :=
  { completed := accepted results, failed := countOf .failed results,
    totalNew := countOf .imported results, totalSkipped := countOf .existing results }

theorem progress_add (done results : List Result) :
    (Progress.of done).add (tally results) = Progress.of (done ++ results) := by
  obtain ⟨hnew, hskipped, hfailed⟩ := tally_counts results
  simp only [Progress.add, Progress.of, accepted, hnew, hskipped, hfailed, countOf_append,
    Progress.mk.injEq, and_true]
  omega

/-! ## The row while the job runs -/

/-- Nobody has cancelled or deleted the job. -/
def Spared (jobId : Nat) (s : Db) : Prop := ∃ row, s.jobs jobId = some row ∧ row.status ≠ .cancelled

/-- The other tasks run, but the job is neither cancelled nor deleted. -/
def Undisturbed (jobId : Nat) (a b : Db) : Prop := OtherTasks jobId a b ∧ (Spared jobId a → Spared jobId b)

theorem undisturbed_refl {jobId : Nat} (s : Db) : Undisturbed jobId s s := ⟨.refl s, id⟩

/-- What the other tasks may make of the row: its counters stay. -/
structure Left (row row' : Job) : Prop where
  totalFiles : row'.totalFiles = row.totalFiles
  completedFiles : row'.completedFiles = row.completedFiles
  failedFiles : row'.failedFiles = row.failedFiles
  status : row'.status = row.status ∨ (row.status = .running ∧ row'.status = .failed) ∨ row'.status = .cancelled

theorem Left.refl (row : Job) : Left row row := ⟨rfl, rfl, rfl, Or.inl rfl⟩

theorem Left.trans {a b c : Job} (h : Left a b) (h' : Left b c) : Left a c := by
  refine ⟨h'.totalFiles.trans h.totalFiles, h'.completedFiles.trans h.completedFiles,
    h'.failedFiles.trans h.failedFiles, ?_⟩
  rcases h'.status with hs | ⟨hb, hc⟩ | hc
  · rw [hs]
    exact h.status
  · rcases h.status with hs | ⟨_, hf⟩ | hf
    · exact Or.inr (Or.inl ⟨hs ▸ hb, hc⟩)
    · rw [hf] at hb
      cases hb
    · rw [hf] at hb
      cases hb
  · exact Or.inr (Or.inr hc)

theorem OtherWrite.left_row {row row' : Job} (h : OtherWrite row row') : Left row row' := by
  cases h with
  | left => exact .refl row
  | cancelled => exact ⟨rfl, rfl, rfl, Or.inr (Or.inr rfl)⟩
  | timedOut hrun => exact ⟨rfl, rfl, rfl, Or.inr (Or.inl ⟨hrun, rfl⟩)⟩

theorem others_left {jobId : Nat} {a b : Db} (h : OtherTasks jobId a b) (hi : jobId < a.nextId) :
    ∀ row', b.jobs jobId = some row' → ∃ row, a.jobs jobId = some row ∧ Left row row' := by
  induction h with
  | refl => exact fun row' hr => ⟨row', hr, .refl row'⟩
  | task h ht ho hx ih =>
    intro row₂ hr
    obtain ⟨row₁, hrow₁, hw⟩ := did_otherWrite (exec_did hx) ht ho (others_kept h hi).1 row₂ hr
    obtain ⟨row, hrow, hl⟩ := ih row₁ hrow₁
    exact ⟨row, hrow, hl.trans hw.left_row⟩
  | env h hx ih =>
    intro row' hr
    rw [(env_jobs hx).1] at hr
    exact ih row' hr

/-- The row is there and satisfies `P`, and no other task can reuse its id. -/
def Shows (jobId : Nat) (P : Job → Prop) (s : Db) : Prop := jobId < s.nextId ∧ ∃ row, s.jobs jobId = some row ∧ P row

/-- A condition on the row that the other tasks do not break, short of a cancellation. -/
structure Stable (P : Job → Prop) : Prop where
  spared : ∀ row, P row → row.status ≠ .cancelled
  left : ∀ row row', P row → Left row row' → row'.status ≠ .cancelled → P row'

theorem Shows.mono {jobId : Nat} {P Q : Job → Prop} {s : Db} (hpq : ∀ row, P row → Q row)
    (h : Shows jobId P s) : Shows jobId Q s := by
  obtain ⟨hi, row, hrow, hp⟩ := h
  exact ⟨hi, row, hrow, hpq row hp⟩

theorem Shows.undisturbed {jobId : Nat} {P : Job → Prop} {a b : Db} (hP : Stable P) (h : Shows jobId P a)
    (hab : Undisturbed jobId a b) : Shows jobId P b := by
  obtain ⟨hi, row, hrow, hp⟩ := h
  obtain ⟨row', hrow', hst⟩ := hab.2 ⟨row, hrow, hP.spared row hp⟩
  obtain ⟨row₀, hrow₀, hl⟩ := others_left hab.1 hi row' hrow'
  rw [hrow] at hrow₀
  cases hrow₀
  exact ⟨(others_kept hab.1 hi).1, row', hrow', hP.left row row' hp hl hst⟩

/-- The row between the total write and the end. -/
def Live (total : Nat) (row : Job) : Prop := row.totalFiles = total ∧ (row.status = .running ∨ row.status = .failed)

/-- The counters are those of these outcomes. -/
structure Counted (total : Nat) (results : List Result) (row : Job) : Prop where
  totalFiles : row.totalFiles = total
  completedFiles : row.completedFiles = accepted results
  failedFiles : row.failedFiles = countOf .failed results

theorem Counted.left {total : Nat} {results : List Result} {row row' : Job} (h : Counted total results row)
    (hl : Left row row') :
    Counted total results row' :=
  ⟨hl.totalFiles.trans h.totalFiles, hl.completedFiles.trans h.completedFiles, hl.failedFiles.trans h.failedFiles⟩

theorem live_left {row row' : Job} (h : row.status = .running ∨ row.status = .failed) (hl : Left row row')
    (hst : row'.status ≠ .cancelled) :
    row'.status = .running ∨ row'.status = .failed := by
  rcases hl.status with hs | ⟨_, hs⟩ | hs
  · rw [hs]
    exact h
  · exact Or.inr hs
  · exact absurd hs hst

theorem live_spared {row : Job} (h : row.status = .running ∨ row.status = .failed) : row.status ≠ .cancelled := by
  intro hc
  rw [hc] at h
  rcases h with h | h <;> cases h

theorem stable_spared : Stable fun row => row.status ≠ .cancelled := ⟨fun _ h => h, fun _ _ _ _ h => h⟩

theorem stable_live (total : Nat) : Stable (Live total) where
  spared _ h := live_spared h.2
  left _ _ h hl hst := ⟨hl.totalFiles.trans h.1, live_left h.2 hl hst⟩

theorem stable_done : Stable fun row => row.status = .completed where
  spared row h := by
    rw [h]
    nofun
  left row row' h hl hst := by
    rcases hl.status with hs | ⟨hs, _⟩ | hs
    · exact hs.trans h
    · rw [h] at hs
      cases hs
    · exact absurd hs hst

theorem Stable.and {P C : Job → Prop} (hP : Stable P) (hC : ∀ row row', C row → Left row row' → C row') :
    Stable fun row => P row ∧ C row where
  spared row h := hP.spared row h.1
  left row row' h hl hst := ⟨hP.left row row' h.1 hl hst, hC row row' h.2 hl⟩

theorem stable_counted (total : Nat) (results : List Result) :
    Stable fun row => Live total row ∧ Counted total results row :=
  (stable_live total).and fun _ _ h hl => h.left hl

theorem stable_completed (total : Nat) (results : List Result) :
    Stable fun row => row.status = .completed ∧ Counted total results row :=
  stable_done.and fun _ _ h hl => h.left hl

/-- Not cancelled, with the counters of `row`. -/
def Uncounted (row row' : Job) : Prop :=
  row'.status ≠ .cancelled ∧ row'.completedFiles = row.completedFiles ∧ row'.failedFiles = row.failedFiles

theorem stable_uncounted (row : Job) : Stable (Uncounted row) :=
  stable_spared.and fun _ _ hc hl => ⟨hl.completedFiles.trans hc.1, hl.failedFiles.trans hc.2⟩

/-- Completed without a file. -/
def NoFiles (row row' : Job) : Prop :=
  row'.status = .completed ∧ row'.totalFiles = 0 ∧ row'.completedFiles = row.completedFiles ∧
    row'.failedFiles = row.failedFiles

theorem stable_noFiles (row : Job) : Stable (NoFiles row) :=
  stable_done.and fun _ _ hc hl => ⟨hl.totalFiles.trans hc.1, hl.completedFiles.trans hc.2.1,
    hl.failedFiles.trans hc.2.2⟩

/-! ## What a run leaves to see -/

/-- A call of `import_file` with what it came to, or a committed row of the job. -/
inductive Mark where
  | imports (key path : String) (result : Result)
  | commits (row : Job)

def mark : JobCall → Option Mark
  | ⟨.importFile key path, r⟩ => some (.imports key path r)
  | ⟨.flushJob _ _ _, .ok (row : Job)⟩ => some (.commits row)
  | _ => none

def marks (calls : List JobCall) : List Mark := calls.filterMap mark

theorem marks_append (xs ys : List JobCall) : marks (xs ++ ys) = marks xs ++ marks ys := List.filterMap_append

/-- It neither imports nor writes the row. -/
def Silent : JobOp → Prop
  | .importFile _ _ | .flushJob _ _ _ => False
  | .createJob _ _ _ _ _ | .cancelJob _ _ | .timeoutStale _ | .deleteForUser _ _ | .clearCompletedForUser _
  | .enqueueJob _ => False
  | _ => True

theorem silent_mark {call : JobCall} (h : Silent call.op) : mark call = none := by
  obtain ⟨o, r⟩ := call
  cases o with
  | importFile | flushJob => exact h.elim
  | _ => rfl

/-- Nothing is cancelled or raised but by `import_file`, and the listing gives `keys`. -/
def Answers (keys : List String) : (o : JobOp) → Except Exc o.Ret → Prop
  | .listAllObjects _ _, r => r = .ok keys
  | .importFile _ _, r => r ≠ .error .cancelled
  | _, r => ∃ v, r = .ok v

section Pieces

variable {pid jobId : Nat} {ctx : Ctx} {keys : List String} {α : Type} {s s' : Db} {calls : List JobCall}
    {P : Job → Prop}

abbrev Undist (pid jobId : Nat) (p : JobProg α) (s : Db) (calls : List JobCall) (x : Except Exc α) (s' : Db) : Prop :=
  JobExec (Undisturbed jobId) pid p s calls x s'

theorem silent_shows {p : JobProg α} {x : Except Exc α}
    (hp : p.Uses fun o : JobOp => Silent o ∨ ∃ key path, o = .importFile key path)
    (hP : Stable P) (h : Undist pid jobId p s calls x s') (hs : Shows jobId P s) : Shows jobId P s' := by
  refine exec_keeps (I := Shows jobId P) (fun a b ha hab => ha.undisturbed hP hab)
    (fun a b o r ho ha hx => ?_) hp h hs
  cases jobs_did hx with
  | got | loaded | missed | raised | answered => exact ha
  | flushed | created | cancelled | timedOut | deleted | cleared | enqueued =>
    rcases ho with h | ⟨_, _, h⟩
    · exact h.elim
    · cases h

theorem silent_run {p : JobProg α} {x : Except Exc α} (hp : p.Uses Silent) (hP : Stable P)
    (h : Undist pid jobId p s calls x s') (hs : Shows jobId P s) : marks calls = [] ∧ Shows jobId P s' :=
  ⟨List.filterMap_eq_nil_iff.mpr fun call hc => silent_mark (exec_uses hp h call hc),
    silent_shows (hp.mono fun _ h => Or.inl h) hP h hs⟩

theorem answers_getJob : Yields (Answers keys) (fun _ => True) (getJob jobId) := .returns fun _ h => h

theorem answers_publishLog (line : LogLine) : Yields (Answers keys) (fun _ => True) (publishLog ctx line) :=
  yields_publishLog (fun _ _ h => h) line

theorem answers_createFolders (dirs : List String) :
    Yields (Answers keys) (fun _ => True) (createFolders ctx dirs) := by
  induction dirs with
  | nil => trivial
  | cons d dirs ih =>
    refine .bind (.returns fun _ h => h) fun result _ => .bind (Q := fun _ => True) ?_ fun _ _ => ih
    obtain ⟨_ | _, error⟩ := result
    · exact answers_publishLog _
    · trivial

theorem answers_update (fields : JobFields) : Yields (Answers keys) (fun _ => True) (update jobId fields) :=
  yields_update (fun _ _ h => h) (fun _ _ _ h => h) fields

theorem silent_createFolders (dirs : List String) : (createFolders ctx dirs).Uses Silent := by
  induction dirs with
  | nil => trivial
  | cons d dirs ih =>
    refine .bind (.await trivial) fun result => .bind ?_ fun _ => ih
    obtain ⟨_ | _, error⟩ := result
    · exact uses_publishLog trivial
    · trivial

/-- A status read sees that the job is not cancelled. -/
theorem reads_spared {current : Option Job} (hP : Stable P)
    (h : Undist pid jobId (getJob jobId) s calls (.ok current) s')
    (hs : Shows jobId P s) : isCancelled current = false ∧ marks calls = [] ∧ Shows jobId P s' := by
  obtain ⟨a, b, hr, hx, hr', rfl⟩ := exec_await h
  obtain ⟨hrow, rfl⟩ := getJob_did (jobs_did hx)
  have hb := hs.undisturbed hP hr
  refine ⟨?_, rfl, hb.undisturbed hP hr'⟩
  obtain ⟨_, row, hrow', hp⟩ := hb
  rw [hrow] at hrow'
  subst hrow'
  simpa [isCancelled] using hP.spared row hp

/-- An `update` writes its fields over the row as the others left it, and commits one row. -/
theorem update_commits {Q : Job → Prop} {fields : JobFields} {r : Option Job} (hP : Stable P) (hQ : Stable Q)
    (hw : ∀ loaded current, P loaded → P current → Left loaded current → Q ((fields.differing loaded).apply current))
    (h : Undist pid jobId (update jobId fields) s calls (.ok r) s') (hs : Shows jobId P s) :
    ∃ row, marks calls = [.commits row] ∧ Q row ∧ Shows jobId Q s' := by
  obtain ⟨row, a, first, rest, rfl, hload, hflush⟩ := exec_bind_ok undisturbed_refl h
  obtain ⟨b, b', hr, hx, hr', rfl⟩ := exec_await hload
  obtain ⟨hrow, rfl⟩ := load_did (jobs_did hx)
  have hb := hs.undisturbed hP hr
  have ha := hb.undisturbed hP hr'
  obtain ⟨_, loaded, hloaded, hpl⟩ := hb
  rw [hrow] at hloaded
  subst hloaded
  obtain ⟨row, c, first, rest, rfl, hf, rfl, _, hlast⟩ := exec_bind_ok undisturbed_refl hflush
  obtain ⟨d, d', hr₂, hx₂, hr₃, rfl⟩ := exec_await hf
  have hd := ha.undisturbed hP hr₂
  obtain ⟨hi, current, hcurrent, hpc⟩ := hd
  have hleft : Left loaded current := by
    obtain ⟨row₁, hrow₁, hl₁⟩ := others_left hr₂.1 ha.1 current hcurrent
    obtain ⟨row₂, hrow₂, hl₂⟩ := others_left hr'.1 (hs.undisturbed hP hr).1 row₁ hrow₁
    rw [hrow] at hrow₂
    cases hrow₂
    exact hl₂.trans hl₁
  have hq := hw loaded current hpl hpc hleft
  cases jobs_did hx₂ with
  | @flushed _ _ current' _ hc =>
    rw [hcurrent] at hc
    cases hc
    have hshows : Shows jobId Q (if fields.differing loaded = {} then d else d.put jobId
        ((fields.differing loaded).apply current)) := by
      refine ⟨by split <;> exact hi, _, ?_, hq⟩
      rw [flush_jobs _ hcurrent, upd_same]
    exact ⟨_, rfl, hq, (hshows.undisturbed hQ hr₃).undisturbed hQ hlast⟩
  | answered h => exact h.elim

/-! ### The next part of the body -/

section Steps

variable {β : Type} {x : Except Exc α}

/-- A part that returns and leaves nothing to see. -/
theorem silent_step {A : β → Prop} {p : JobProg β} {f : β → JobProg α} (hy : Yields (Answers keys) A p)
    (hp : p.Uses Silent)
    (hP : Stable P) (h : Undist pid jobId (p.bind f) s calls x s')
    (hok : ∀ call ∈ calls, Answers keys call.op call.ans) (hs : Shows jobId P s) :
    ∃ a s₁ rest, A a ∧ marks calls = marks rest ∧ Shows jobId P s₁ ∧ Undist pid jobId (f a) s₁ rest x s' ∧
      ∀ call ∈ rest, Answers keys call.op call.ans := by
  obtain ⟨a, s₁, first, rest, rfl, ha, h₁, hrest, hok⟩ := hy.goes_on undisturbed_refl h hok
  obtain ⟨hm, hs₁⟩ := silent_run hp hP h₁ hs
  refine ⟨a, s₁, rest, ha, ?_, hs₁, hrest, hok⟩
  rw [marks_append, hm, List.nil_append]

theorem log_step {line : LogLine} {f : Unit → JobProg α} (hP : Stable P)
    (h : Undist pid jobId ((publishLog ctx line).bind f) s calls x s')
    (hok : ∀ call ∈ calls, Answers keys call.op call.ans) (hs : Shows jobId P s) :
    ∃ s₁ rest, marks calls = marks rest ∧ Shows jobId P s₁ ∧ Undist pid jobId (f ()) s₁ rest x s' ∧
      ∀ call ∈ rest, Answers keys call.op call.ans := by
  obtain ⟨_, s₁, rest, _, hstep⟩ := silent_step (answers_publishLog line) (uses_publishLog trivial) hP h hok hs
  exact ⟨s₁, rest, hstep⟩

/-- The job goes on past a check for a cancellation. -/
theorem check_step {f : Option Job → JobProg α} (hP : Stable P)
    (h : Undist pid jobId ((getJob jobId).bind f) s calls x s')
    (hok : ∀ call ∈ calls, Answers keys call.op call.ans) (hs : Shows jobId P s) :
    ∃ current s₁ rest, isCancelled current = false ∧ marks calls = marks rest ∧ Shows jobId P s₁ ∧
      Undist pid jobId (f current) s₁ rest x s' ∧ ∀ call ∈ rest, Answers keys call.op call.ans := by
  obtain ⟨current, s₁, first, rest, rfl, _, h₁, hrest, hok⟩ := answers_getJob.goes_on undisturbed_refl h hok
  obtain ⟨hcurrent, hm, hs₁⟩ := reads_spared hP h₁ hs
  refine ⟨current, s₁, rest, hcurrent, ?_, hs₁, hrest, hok⟩
  rw [marks_append, hm, List.nil_append]

theorem update_step {Q : Job → Prop} {fields : JobFields} {f : Option Job → JobProg α} (hP : Stable P) (hQ : Stable Q)
    (hw : ∀ loaded current, P loaded → P current → Left loaded current → Q ((fields.differing loaded).apply current))
    (h : Undist pid jobId ((update jobId fields).bind f) s calls x s')
    (hok : ∀ call ∈ calls, Answers keys call.op call.ans) (hs : Shows jobId P s) :
    ∃ r row s₁ rest, marks calls = .commits row :: marks rest ∧ Q row ∧ Shows jobId Q s₁ ∧
    Undist pid jobId (f r) s₁ rest x s' ∧
      ∀ call ∈ rest, Answers keys call.op call.ans := by
  obtain ⟨r, s₁, first, rest, rfl, _, h₁, hrest, hok⟩ := (answers_update fields).goes_on undisturbed_refl h hok
  obtain ⟨row, hm, hrow, hs₁⟩ := update_commits hP hQ hw h₁ hs
  refine ⟨r, row, s₁, rest, ?_, hrow, hs₁, hrest, hok⟩
  rw [marks_append, hm, List.singleton_append]

end Steps

/-! ## One batch -/

/-- The imports of a batch, and the row committed behind it. -/
def block (bucketName : String) (batch : List String) (results : List Result) (row : Job) : List Mark :=
  List.zipWith (fun key r => .imports key (llPath bucketName key) r) batch results ++ [.commits row]

theorem gather_imports_each {bucketName : String} {batch : List String} {x : Except Exc (List Result)}
    (h : Undist pid jobId (runBatch bucketName batch) s calls x s')
    (hok : ∀ call ∈ calls, Answers keys call.op call.ans) :
    ∃ results : List Result, x = .ok results ∧ results.length = batch.length ∧
      marks calls = List.zipWith (fun key r => .imports key (llPath bucketName key) r) batch results := by
  unfold runBatch at h
  induction batch generalizing s s' calls x with
  | nil =>
    obtain ⟨rfl, rfl, _⟩ := h
    exact ⟨[], rfl, rfl, rfl⟩
  | cons key batch ih =>
    have hfirst : Yields (Answers keys) (fun r : Result => r ≠ .error .cancelled)
        (importFile key (llPath bucketName key)).attempt := by
      intro r hr
      cases r <;> exact hr
    obtain ⟨result, s₁, first, rest, rfl, hresult, hp, hgo, hrest⟩ := hfirst.goes_on undisturbed_refl h hok
    obtain ⟨_, hy, hp⟩ := exec_attempt hp
    cases hy
    obtain ⟨_, _, _, _, _, rfl⟩ := exec_await hp
    have hgo : Undist pid jobId ((gather (batch.map fun key => importFile key (llPath bucketName key))).bind fun rs =>
        .ret (result :: rs)) s₁ rest x s' := by
      rcases result with (_ | _ | _) | _
      · exact hgo
      · exact hgo
      · exact absurd rfl hresult
      · exact hgo
    rcases exec_bind undisturbed_refl hgo with ⟨e, rfl, hp⟩ | ⟨results, _, more, last, rfl, hp, hret⟩
    · obtain ⟨_, he, _⟩ := ih hp hrest
      cases he
    · obtain ⟨rfl, rfl, _⟩ := hret
      rw [List.append_nil] at hrest ⊢
      obtain ⟨_, he, hlen, hmarks⟩ := ih hp hrest
      cases he
      exact ⟨_, rfl, congrArg (· + 1) hlen, congrArg (_ :: ·) hmarks⟩

theorem runBatch_shows {bucketName : String} {batch : List String} {x : Except Exc (List Result)} (hP : Stable P)
    (h : Undist pid jobId (runBatch bucketName batch) s calls x s') (hs : Shows jobId P s) : Shows jobId P s' := by
  refine silent_shows (uses_gather fun p hp => ?_) hP h hs
  obtain ⟨key, _, rfl⟩ := List.mem_map.mp hp
  exact .await (Or.inr ⟨_, _, rfl⟩)

/-- A column that the others leave alone is what is written, whether or not the UPDATE has it. -/
theorem column_written {loaded current : Nat} (h : current = loaded) (n : Nat) :
    ((some n).filter (· != loaded)).getD current = n := by
  by_cases hn : n = loaded
  · simp [Option.filter, hn, h]
  · simp [Option.filter, hn]

theorem total_write {total : Nat} {loaded current : Job} (h : current.status ≠ .cancelled)
    (hl : Left loaded current) :
    Live total ((JobFields.differing { status := some .running, totalFiles := some total } loaded).apply
      current) := by
  refine ⟨column_written hl.totalFiles total, ?_⟩
  rw [flush_status _ _ rfl]
  split
  · rename_i hrun
    rcases hl.status with hs | ⟨_, hs⟩ | hs
    · exact Or.inl (hs.trans hrun.symm)
    · exact Or.inr hs
    · exact absurd hs h
  · exact Or.inl rfl

theorem progress_write {total : Nat} {results : List Result} {loaded current : Job} (h : Live total current)
    (hl : Left loaded current) :
    let fields : JobFields :=
      { status := some .running, completedFiles := some (accepted results),
        failedFiles := some (countOf .failed results) }
    Live total ((fields.differing loaded).apply current) ∧
      Counted total results ((fields.differing loaded).apply current) := by
  have htotal : current.totalFiles = total := h.1
  refine ⟨⟨htotal, ?_⟩, htotal, column_written hl.completedFiles _, column_written hl.failedFiles _⟩
  rw [flush_status _ _ rfl]
  split
  · exact h.2
  · exact Or.inl rfl

theorem final_write {total : Nat} {results : List Result} {loaded current : Job} (h : Live total loaded)
    (h' : Counted total results current) :
    let row := (JobFields.differing { status := some .completed } loaded).apply current
    row.status = .completed ∧ Counted total results row := by
  refine ⟨?_, h'.totalFiles, h'.completedFiles, h'.failedFiles⟩
  rw [flush_status _ _ rfl, if_neg]
  intro hc
  rcases h.2 with hs | hs <;> rw [hs] at hc <;> cases hc

theorem empty_write {loaded current : Job} (h : current.status ≠ .cancelled) (hl : Left loaded current) :
    let row := (JobFields.differing { status := some .completed, totalFiles := some 0 } loaded).apply current
    row.status = .completed ∧ row.totalFiles = 0 ∧ row.completedFiles = current.completedFiles ∧
      row.failedFiles = current.failedFiles := by
  refine ⟨?_, column_written hl.totalFiles 0, rfl, rfl⟩
  rw [flush_status _ _ rfl]
  split
  · rename_i hdone
    exact stable_done.left loaded current hdone.symm hl h
  · rfl

/-! ## The loop -/

/-- The marks of the batches at these positions, behind the outcomes `done`; `all` are the outcomes in the end. -/
inductive Blocks (bucketName : String) (keys : List String) : List Nat → List Result → List Mark → List Result → Prop
  | nil (done : List Result) : Blocks bucketName keys [] done [] done
  | cons {i : Nat} {is : List Nat} {done results all : List Result} {row : Job} {rest : List Mark} :
      results.length = (slice keys i batchSize).length → Counted keys.length (done ++ results) row →
      Blocks bucketName keys is (done ++ results) rest all →
      Blocks bucketName keys (i :: is) done (block bucketName (slice keys i batchSize) results row ++ rest) all

theorem batchLoop_blocks {bucketName : String} {is : List Nat} (done : List Result) {x : Except Exc Progress}
    (h : Undist pid jobId (batchLoop ctx jobId bucketName keys is (.of done)) s calls x s')
    (hok : ∀ call ∈ calls, Answers keys call.op call.ans) (hlive : Shows jobId (Live keys.length) s)
    (hdone : is = [] → Shows jobId (fun row => Live keys.length row ∧ Counted keys.length done row) s) :
    ∃ all, x = .ok (.of all) ∧ Blocks bucketName keys is done (marks calls) all ∧
      Shows jobId (fun row => Live keys.length row ∧ Counted keys.length all row) s' := by
  have hL := stable_live keys.length
  induction is generalizing s calls x done with
  | nil =>
    obtain ⟨rfl, rfl, hr⟩ := h
    exact ⟨done, rfl, .nil done, (hdone rfl).undisturbed (stable_counted _ _) hr⟩
  | cons i is ih =>
    have hsleep : Yields (Answers keys) (fun _ => True) (@Prog.await jobSig Exc JobOp.sleep) := .returns fun _ h => h
    obtain ⟨current, _, _, hcurrent, hm, hs, h, hok⟩ := check_step hL h hok hlive
    rw [if_neg (by simp [hcurrent])] at h
    rw [hm]
    rcases exec_bind undisturbed_refl h with ⟨e, rfl, hp⟩ | ⟨results, _, first, rest₁, rfl, hbatch, h⟩
    · obtain ⟨_, he, _⟩ := gather_imports_each hp hok
      cases he
    obtain ⟨hfirst, hok⟩ := List.forall_mem_append.mp hok
    obtain ⟨_, he, hlen, himports⟩ := gather_imports_each hbatch hfirst
    cases he
    obtain ⟨_, _, hm₁, hs, h, hok⟩ := log_step hL h hok (runBatch_shows hL hbatch hs)
    rw [progress_add] at h
    obtain ⟨_, row, _, _, hm₂, hrow, hs, h, hok⟩ := update_step hL (stable_counted keys.length (done ++ results))
      (fun _ _ _ hc hleft => progress_write hc hleft) h hok hs
    obtain ⟨_, _, rest, _, hm₃, hs, h, hok⟩ :=
      silent_step hsleep (uses_op JobOp.sleep trivial) (stable_counted _ _) h hok hs
    obtain ⟨all, hx, hblocks, hs'⟩ := ih _ h hok (hs.mono fun _ h => h.1) fun _ => hs
    refine ⟨all, hx, ?_, hs'⟩
    have hmarks : marks (first ++ rest₁) = block bucketName (slice keys i batchSize) results row ++ marks rest := by
      rw [marks_append, himports, hm₁, hm₂, hm₃, block, List.append_assoc, List.singleton_append]
    rw [hmarks]
    exact .cons hlen hrow.2 hblocks

end Pieces

section Blocks

variable {bucketName : String} {keys : List String} {is : List Nat} {done all : List Result} {ms : List Mark}

theorem Blocks.grows (h : Blocks bucketName keys is done ms all) : done <+: all := by
  induction h with
  | nil => exact List.prefix_rfl
  | cons _ _ _ ih => exact (List.prefix_append _ _).trans ih

theorem Blocks.length {k l : Nat} (h : Blocks bucketName keys ((List.range' k l).map (batchSize * ·)) done ms all)
    (hdone : done.length = min (batchSize * k) keys.length) : all.length = min (batchSize * (k + l)) keys.length := by
  induction l generalizing k done ms with
  | zero =>
    cases h
    exact hdone
  | succ l ih =>
    rw [List.range'_succ] at h
    cases h with
    | cons hlen _ hrest =>
      have hnext := ih hrest (by rw [List.length_append, hdone, hlen, length_slice]; simp only [batchSize]; omega)
      rw [hnext, Nat.add_right_comm, Nat.add_assoc]

/-- The outcomes of a batch are its part of all outcomes. -/
theorem slice_outcomes {k n : Nat} {results : List Result} (hdone : done.length = min (batchSize * k) n)
    (hlen : results.length = min batchSize (n - batchSize * k)) (hall : all.length = n)
    (hp : done ++ results <+: all) :
    done ++ results = all.take (batchSize * (k + 1)) ∧ results = slice all (batchSize * k) batchSize := by
  have htake : done ++ results = all.take (batchSize * (k + 1)) := by
    rw [List.prefix_iff_eq_take.mp hp, List.take_eq_take_iff, List.length_append, hdone, hlen]
    simp only [batchSize]
    omega
  refine ⟨htake, ?_⟩
  have hdrop : slice all (batchSize * k) batchSize = (done ++ results).drop (batchSize * k) := by
    rw [htake, List.drop_take, Nat.mul_succ, Nat.add_sub_cancel_left, slice]
  rw [hdrop, List.drop_append, List.drop_eq_nil_of_le (by omega), List.nil_append]
  rcases Nat.le_total (batchSize * k) n with hle | hle
  · rw [hdone, Nat.min_eq_left hle, Nat.sub_self, List.drop_zero]
  · have : results = [] := List.eq_nil_of_length_eq_zero (by omega)
    rw [this, List.drop_nil]

theorem Blocks.rows {k l : Nat} (first : Job)
    (h : Blocks bucketName keys ((List.range' k l).map (batchSize * ·)) done ms all)
    (hdone : done.length = min (batchSize * k) keys.length) (hall : all.length = keys.length) :
    ∃ rows : Nat → Job,
      ms = (List.range' k l).flatMap (fun i =>
        block bucketName (slice keys (batchSize * i) batchSize) (slice all (batchSize * i) batchSize) (rows i)) ∧
      ∀ i, k ≤ i → i < k + l → Counted keys.length (all.take (batchSize * (i + 1))) (rows i) := by
  induction l generalizing k done ms with
  | zero =>
    cases h
    exact ⟨fun _ => first, rfl, fun i hk hi => by omega⟩
  | succ l ih =>
    rw [List.range'_succ] at h ⊢
    cases h with
    | @cons _ _ _ results _ row _ hlen hcounted hrest =>
      have hlen' : results.length = min batchSize (keys.length - batchSize * k) := hlen.trans (length_slice _ _ _)
      obtain ⟨htake, hslice⟩ := slice_outcomes hdone hlen' hall hrest.grows
      obtain ⟨rows, rfl, hrows⟩ := ih hrest (by rw [List.length_append, hdone, hlen']; simp only [batchSize]; omega)
      refine ⟨upd rows k row, ?_, fun i hk hi => ?_⟩
      · rw [List.flatMap_cons, upd_same, ← hslice, List.flatMap_def, List.flatMap_def]
        congr 2
        refine List.map_congr_left fun i hi => ?_
        have hne : i ≠ k := by have := (List.mem_range'_1.mp hi).1; omega
        rw [upd_ne _ _ hne]
      · by_cases e : i = k
        · subst e
          rw [upd_same, ← htake]
          exact hcounted
        · rw [upd_ne _ _ e]
          exact hrows i (by omega) (by omega)

end Blocks

/-! ## The whole job -/

/-- The number of batches for `n` keys. -/
def batches (n : Nat) : Nat := (n + batchSize - 1) / batchSize

/-- A run with these outcomes: `rows i` is committed behind batch `i`, between the first and the
    last commit. The counters are those of the outcomes behind the batches; the first commit
    still has those of an earlier delivery. -/
structure Accounted (bucketName : String) (keys : List String) (ms : List Mark) (results : List Result)
    (rows : Nat → Job) (first last : Job) : Prop where
  one_each : results.length = keys.length
  trace : ms = .commits first :: (List.range (batches keys.length)).flatMap (fun i =>
    block bucketName (slice keys (batchSize * i) batchSize) (slice results (batchSize * i) batchSize)
      (rows i)) ++ [.commits last]
  counted : ∀ i, i < batches keys.length → Counted keys.length (results.take (batchSize * (i + 1))) (rows i)

section Accounted

variable {bucketName : String} {keys : List String} {ms : List Mark} {results : List Result}
    {rows : Nat → Job} {first last : Job}

theorem Counted.sum {total : Nat} {results : List Result} {row : Job} (h : Counted total results row) :
    row.completedFiles + row.failedFiles = results.length := by
  rw [h.completedFiles, h.failedFiles, accepted_add_failed]

theorem countOf_mono (o : ImportOutcome) {xs ys : List Result} (h : xs <+: ys) : countOf o xs ≤ countOf o ys := by
  obtain ⟨zs, rfl⟩ := h
  rw [countOf_append]
  exact Nat.le_add_right _ _

theorem Accounted.progress (h : Accounted bucketName keys ms results rows first last) (i : Nat)
    (hi : i < batches keys.length) :
    (rows i).completedFiles + (rows i).failedFiles = min (batchSize * (i + 1)) keys.length := by
  rw [(h.counted i hi).sum, List.length_take, h.one_each]

theorem Accounted.mono (h : Accounted bucketName keys ms results rows first last) (i j : Nat) (hij : i ≤ j)
    (hj : j < batches keys.length) :
    (rows i).completedFiles ≤ (rows j).completedFiles ∧ (rows i).failedFiles ≤ (rows j).failedFiles := by
  have hi := h.counted i (by omega)
  have hj := h.counted j hj
  have hp : results.take (batchSize * (i + 1)) <+: results.take (batchSize * (j + 1)) :=
    List.take_prefix_take_left (Nat.mul_le_mul_left _ (by omega))
  rw [hi.completedFiles, hj.completedFiles, hi.failedFiles, hj.failedFiles]
  exact ⟨Nat.add_le_add (countOf_mono _ hp) (countOf_mono _ hp), countOf_mono _ hp⟩

end Accounted

section Body

variable {pid jobId : Nat} {ctx : Ctx} {keys : List String} {s s' : Db} {calls : List JobCall}

theorem finishJob_completes {p : Progress} {results : List Result} {x : Except Exc JobResult}
    (h : Undist pid jobId (finishJob ctx jobId keys.length p) s calls x s')
    (hok : ∀ call ∈ calls, Answers keys call.op call.ans)
    (hs : Shows jobId (fun row => Live keys.length row ∧ Counted keys.length results row) s) :
    x = .ok (.completed p.completed p.failed p.totalNew p.totalSkipped) ∧
      ∃ last, marks calls = [.commits last] ∧ last.status = .completed ∧ Counted keys.length results last ∧
        Shows jobId (fun row => row.status = .completed ∧ Counted keys.length results row) s' := by
  obtain ⟨current, _, _, hcurrent, hm₁, hs, h, hok⟩ := check_step (stable_counted _ _) h hok hs
  rw [if_neg (by simp [hcurrent])] at h
  obtain ⟨_, last, _, _, hm₂, ⟨hst, hlast⟩, hs, h, hok⟩ :=
    update_step (stable_counted _ _) (stable_completed keys.length results)
    (fun _ _ hl hc _ => final_write hl.1 hc.2) h hok hs
  obtain ⟨_, _, hm₃, hs, h, _⟩ := log_step (stable_completed _ _) h hok hs
  obtain ⟨rfl, rfl, hr⟩ := h
  refine ⟨rfl, last, ?_, hst, hlast, hs.undisturbed (stable_completed _ _) hr⟩
  rw [hm₁, hm₂, hm₃]
  rfl

theorem importKeys_accounted {job : JobDict} {x : Except Exc JobResult}
    (h : Undist pid jobId (importKeys ctx job jobId keys) s calls x s')
    (hok : ∀ call ∈ calls, Answers keys call.op call.ans) (hne : keys ≠ [])
    (hs : Shows jobId (fun row => row.status ≠ .cancelled) s) :
    ∃ results rows first last, Accounted job.bucket keys (marks calls) results rows first last ∧
      x = .ok (.completed (accepted results) (countOf .failed results) (countOf .imported results)
        (countOf .existing results)) ∧
      last.status = .completed ∧ Counted keys.length results last ∧
      Shows jobId (fun row => row.status = .completed ∧ Counted keys.length results row) s' := by
  have hL := stable_live keys.length
  obtain ⟨_, first, _, _, hm₁, _, hs, h, hok⟩ :=
    update_step stable_spared hL (fun _ _ _ hc hleft => total_write hc hleft) h hok hs
  obtain ⟨_, _, hm₂, hs, h, hok⟩ := log_step hL h hok hs
  obtain ⟨_, _, hm₃, hs, h, hok⟩ := log_step hL h hok hs
  obtain ⟨_, _, _, _, hm₄, hs, h, hok⟩ := silent_step (answers_createFolders _) (silent_createFolders _) hL h hok hs
  obtain ⟨current, _, _, hcurrent, hm₅, hs, h, hok⟩ := check_step hL h hok hs
  rw [if_neg (by simp [hcurrent])] at h
  obtain ⟨_, _, hm₆, hs, h, hok⟩ := log_step hL h hok hs
  have hpos : 0 < keys.length := List.length_pos_iff.mpr hne
  have hrange : pyRange keys.length batchSize ≠ [] := by
    have : 0 < (keys.length + batchSize - 1) / batchSize := Nat.div_pos (by omega) (by decide)
    simp only [pyRange, ne_eq, List.map_eq_nil_iff, List.range_eq_nil]
    omega
  rcases exec_bind undisturbed_refl h with ⟨e, rfl, hloop⟩ | ⟨p, _, _, _, rfl, hloop, h⟩
  · obtain ⟨_, he, _⟩ := batchLoop_blocks [] hloop hok hs fun hnil => absurd hnil hrange
    cases he
  obtain ⟨hbatches, hok⟩ := List.forall_mem_append.mp hok
  obtain ⟨results, he, hblocks, hs⟩ := batchLoop_blocks [] hloop hbatches hs fun hnil => absurd hnil hrange
  cases he
  obtain ⟨rfl, last, hm₈, hst, hlast, hs⟩ := finishJob_completes h hok hs
  rw [pyRange, List.range_eq_range'] at hblocks
  have hlen : results.length = keys.length := by
    rw [hblocks.length (k := 0) (by simp)]
    simp only [batchSize]
    omega
  obtain ⟨rows, hm₇, hrows⟩ := hblocks.rows (k := 0) first (by simp) hlen
  refine ⟨results, rows, first, last, ⟨hlen, ?_, fun i hi => hrows i (Nat.zero_le i) ?_⟩, rfl, hst, hlast, hs⟩
  · rw [hm₁, hm₂, hm₃, hm₄, hm₅, hm₆, marks_append, hm₇, hm₈, batches, List.range_eq_range', List.cons_append]
  · rw [Nat.zero_add]
    exact hi

theorem noKeys_leaves {row : Job} {x : Except Exc JobResult} (h : Undist pid jobId (noKeys ctx jobId) s calls x s')
    (hok : ∀ call ∈ calls, Answers keys call.op call.ans) (hs : Shows jobId (Uncounted row) s) :
    x = .ok .noFiles ∧ Shows jobId (NoFiles row) s' := by
  obtain ⟨_, _, _, hs, h, hok⟩ := log_step (stable_uncounted row) h hok hs
  obtain ⟨_, _, _, _, _, _, hs, h, _⟩ :=
    update_step (stable_uncounted row) (stable_noFiles row) (fun loaded current _ hc hl => by
    obtain ⟨hdone, htotal, hcompleted, hfailed⟩ := empty_write hc.1 hl
    exact ⟨hdone, htotal, hcompleted.trans hc.2.1, hfailed.trans hc.2.2⟩) h hok hs
  obtain ⟨rfl, rfl, hr⟩ := h
  exact ⟨rfl, hs.undisturbed (stable_noFiles row) hr⟩

/-- The job imports each key once, batch by batch, and its row follows the outcomes up to the end; without a key it is
    completed as it stands. -/
theorem batches_accounted {job : JobDict} {r : Resolved} {x : Except Exc JobResult} {row : Job}
    (hi : jobId < s.nextId) (hrow : s.jobs jobId = some row) (hspared : row.status ≠ .cancelled)
    (h : Undist pid jobId (importJobBody ctx job jobId r) s calls x s')
    (hok : ∀ call ∈ calls, Answers keys call.op call.ans) :
    (keys ≠ [] → ∃ results rows first last, Accounted job.bucket keys (marks calls) results rows first last ∧
      (∀ i, i < batches keys.length →
        (rows i).completedFiles + (rows i).failedFiles = min (batchSize * (i + 1)) keys.length) ∧
      (∀ i j, i ≤ j → j < batches keys.length →
        (rows i).completedFiles ≤ (rows j).completedFiles ∧ (rows i).failedFiles ≤ (rows j).failedFiles) ∧
      x = .ok (.completed (countOf .imported results + countOf .existing results) (countOf .failed results)
        (countOf .imported results) (countOf .existing results)) ∧
      ∃ row', s'.jobs jobId = some row' ∧ row'.status = .completed ∧ Counted keys.length results row' ∧
        row'.completedFiles + row'.failedFiles = keys.length) ∧
    (keys = [] → x = .ok .noFiles ∧ ∃ row', s'.jobs jobId = some row' ∧ row'.status = .completed ∧
      row'.totalFiles = 0 ∧
      row'.completedFiles = row.completedFiles ∧ row'.failedFiles = row.failedFiles) := by
  unfold importJobBody at h
  have hnew : Yields (Answers keys) (fun _ => True) (@Prog.await jobSig Exc
      (JobOp.newS3Service r.dsCred.accessKey r.dsCred.secretKey
        ((truthy r.dsCred.region).getD "us-east-1") r.dsCred.endpoint)) :=
    .returns fun _ h => h
  have hlist : Yields (Answers keys) (· = keys) (listAllObjects job.bucket job.keyPrefix) :=
    .await fun _ hr => ⟨_, hr, rfl⟩
  have hP := stable_uncounted row
  have hs : Shows jobId (Uncounted row) s := ⟨hi, row, hrow, hspared, rfl, rfl⟩
  obtain ⟨_, _, _, _, hm₁, hs, h, hok⟩ := silent_step hnew (.await trivial) hP h hok hs
  obtain ⟨_, _, hm₂, hs, h, hok⟩ := log_step hP h hok hs
  obtain ⟨_, _, hm₃, hs, h, hok⟩ := log_step hP h hok hs
  obtain ⟨_, _, rest, rfl, hm₄, hs, h, hok⟩ := silent_step hlist (.await trivial) hP h hok hs
  have hmarks : marks calls = marks rest := by rw [hm₁, hm₂, hm₃, hm₄]
  constructor
  · intro hne
    rw [if_neg (by simpa using hne)] at h
    obtain ⟨results, rows, first, last, hacc, hx, _, _, _, row', hrow', hst, hcounted⟩ :=
      importKeys_accounted h hok hne (hs.mono fun _ h => h.1)
    rw [hmarks]
    exact ⟨results, rows, first, last, hacc, hacc.progress, hacc.mono, hx, row', hrow', hst, hcounted,
      hcounted.sum.trans hacc.one_each⟩
  · intro hnil
    rw [if_pos (by simp [hnil])] at h
    obtain ⟨hx, _, row', hrow', hleft⟩ := noKeys_leaves h hok hs
    exact ⟨hx, row', hrow', hleft⟩

end Body

/-! ### Runs -/

/-- The row of a job that an earlier delivery has left with these counters. -/
def rowOf (status : Status) (total completed failed : Nat) : Job :=
  { status, bucket := "b", keyPrefix := "", filespaceId := "filespace", datastoreId := "datastore",
    totalFiles := total,
    completedFiles := completed, failedFiles := failed, errorMessage := none, createdAt := 0, startedAt := none,
    completedAt := none, userId := none }

def tableOf (row : Job) : Db := { noJobs.2.put 0 row with nextId := 1 }

def bodyDict : JobDict := ⟨0, .running, "b", "", "filespace", "datastore", none⟩

def bodyResolved : Resolved := ⟨"token", ⟨"b", none, none, "key", "secret"⟩, ""⟩

/-- Up to the listing, without a connection to Valkey. -/
def listed (keys : List String) : List JobCall :=
  [⟨.newS3Service "key" "secret" "us-east-1" none, .ok ()⟩, ⟨.listAllObjects "b" "", .ok keys⟩]

/-- Of thirty keys one is there already, and one makes `import_file` raise. -/
def mixed (s : Db) : (o : JobOp) → Except Exc o.Ret
  | .importFile "k3" _ => .ok (409, "")
  | .importFile "k27" _ => .error (.exception "timeout")
  | .flushJob jobId loaded fields => .ok ((fields.differing loaded).apply ((s.jobs jobId).getD loaded))
  | o => s.answer thirtyKeys o

theorem mixed_answers (s : Db) (o : JobOp) : Answers thirtyKeys o (mixed s o) := by
  unfold mixed
  split
  · nofun
  · nofun
  · exact ⟨_, rfl⟩
  · next hflush =>
    cases o with
    | listAllObjects => exact rfl
    | importFile => nofun
    | flushJob jobId loaded fields => exact (hflush jobId loaded fields rfl).elim
    | _ => exact ⟨_, rfl⟩

theorem alone_undisturbed {jobId : Nat} (a b : Db) (h : a = b) : Undisturbed jobId a b := h ▸ undisturbed_refl a

def countersOf : Mark → Option (Nat × Nat)
  | .commits row => some (row.completedFiles, row.failedFiles)
  | .imports _ _ _ => none

theorem played_thirty :
    (solo jobs 0 mixed (importJobBody ⟨none, none, none, false⟩ bodyDict 0 bodyResolved)
      (tableOf (rowOf .running 0 0 0))).map
      (fun run => (marks run.1).filterMap countersOf) = some [(0, 0), (25, 0), (29, 1), (29, 1)] := by
  decide +kernel

theorem batches_accounted_thirty : ∃ calls x s' results rows first last,
    JobExec Eq 0 (importJobBody ⟨none, none, none, false⟩ bodyDict 0 bodyResolved)
        (tableOf (rowOf .running 0 0 0)) calls x s' ∧
      (marks calls).filterMap countersOf = [(0, 0), (25, 0), (29, 1), (29, 1)] ∧
      Accounted "b" thirtyKeys (marks calls) results rows first last ∧
      (∀ i, i < batches 30 → (rows i).completedFiles + (rows i).failedFiles = min (batchSize * (i + 1)) 30) ∧
      (∀ i j, i ≤ j → j < batches 30 →
        (rows i).completedFiles ≤ (rows j).completedFiles ∧ (rows i).failedFiles ≤ (rows j).failedFiles) ∧
      x = .ok (.completed (countOf .imported results + countOf .existing results) (countOf .failed results)
        (countOf .imported results) (countOf .existing results)) ∧
      ∃ row, s'.jobs 0 = some row ∧ row.status = .completed ∧ Counted 30 results row ∧
        row.completedFiles + row.failedFiles = 30 := by
  obtain ⟨⟨calls, x, s'⟩, hsolo, hcounts⟩ := Option.map_eq_some_iff.mp played_thirty
  have hrun : JobExec Eq 0 _ _ calls x s' := solo_exec (fun _ => rfl) hsolo
  obtain ⟨results, rows, first, last, h⟩ :=
    (batches_accounted (by decide) (rfl : _ = some (rowOf .running 0 0 0)) (by decide)
      (exec_mono alone_undisturbed hrun)
      (solo_answers mixed_answers hsolo)).1 (by decide)
  exact ⟨calls, x, s', results, rows, first, last, hrun, hcounts, h⟩

/-- A delivery was cut off after one batch; at the next one the bucket is empty. -/
def emptyCalls : List JobCall :=
  listed [] ++
    [⟨.loadJob 0 { status := some .completed, totalFiles := some 0 }, .ok (some (rowOf .running 30 24 1))⟩,
      ⟨.flushJob 0 (rowOf .running 30 24 1) { status := some .completed, totalFiles := some 0 },
        .ok (rowOf .completed 0 24 1)⟩]

/-- Valkey does not take the line that says how many files were found. -/
def cutCalls : List JobCall :=
  [⟨.newS3Service "key" "secret" "us-east-1" none, .ok ()⟩, ⟨.publish (.usingFilespace "filespac"), .ok ()⟩,
    ⟨.publish .scanning, .ok ()⟩,
    ⟨.listAllObjects "b" "", .ok (["k"] : List String)⟩,
    ⟨.loadJob 0 { status := some .running, totalFiles := some 1 }, .ok (some (rowOf .running 0 0 0))⟩,
    ⟨.flushJob 0 (rowOf .running 0 0 0) { status := some .running, totalFiles := some 1 },
      .ok (rowOf .running 1 0 0)⟩,
    ⟨.publish (.found 1), .error (.exception "Connection closed")⟩]

/-- An empty listing returns no counts and leaves old counters in the row, and a line that is not
    taken ends the body with nothing imported and the row running. -/
theorem batches_not_accounted :
    (∃ s', Undist 0 0 (importJobBody ⟨none, none, none, false⟩ bodyDict 0 bodyResolved)
        (tableOf (rowOf .running 30 24 1)) emptyCalls (.ok .noFiles) s' ∧
      (∀ call ∈ emptyCalls, Answers [] call.op call.ans) ∧
      ∃ row, s'.jobs 0 = some row ∧ row.status = .completed ∧ row.totalFiles = 0 ∧
        row.completedFiles + row.failedFiles = 25) ∧
    ∃ s', Undist 0 0 (importJobBody ⟨none, none, none, true⟩ bodyDict 0 bodyResolved)
        (tableOf (rowOf .running 0 0 0)) cutCalls (.error (.exception "Connection closed")) s' ∧
      (∀ call ∈ cutCalls, (∀ line, call.op ≠ .publish line) → Answers ["k"] call.op call.ans) ∧
      ∃ row, s'.jobs 0 = some row ∧ row.status = .running ∧ row.completedFiles + row.failedFiles = 0 := by
  refine ⟨⟨(tableOf (rowOf .running 30 24 1)).put 0 (rowOf .completed 0 24 1),
    exec_mono alone_undisturbed ?_, ?_, _, rfl, rfl, rfl, rfl⟩,
    (tableOf (rowOf .running 0 0 0)).put 0 (rowOf .running 1 0 0), exec_mono alone_undisturbed ?_, ?_, _,
    rfl, rfl, rfl⟩
  · exact ⟨_, _, _, _, rfl, rfl, rfl, _, _, _, _, rfl, rfl, rfl, _, _, _, _, rfl, rfl, rfl, _, _, _, _, rfl,
      rfl, rfl, rfl, rfl, rfl⟩
  · intro call hc
    simp only [emptyCalls, listed, List.cons_append, List.nil_append, List.mem_cons, List.not_mem_nil, or_false] at hc
    rcases hc with rfl | rfl | rfl | rfl
    all_goals first | exact ⟨_, rfl⟩ | exact rfl
  · exact ⟨_, _, _, _, rfl, rfl, rfl, _, _, _, _, rfl, rfl, rfl, _, _, _, _, rfl, rfl, rfl, _, _, _, _, rfl, rfl, rfl,
      _, _, _, _, rfl, rfl, rfl, _, _, _, _, rfl, rfl, rfl, _, _, _, _, rfl, rfl, rfl, rfl, rfl, rfl⟩
  · intro call hc hline
    simp only [cutCalls, List.mem_cons, List.not_mem_nil, or_false] at hc
    rcases hc with rfl | rfl | rfl | rfl | rfl | rfl | rfl
    all_goals first | exact absurd rfl (hline _) | exact ⟨_, rfl⟩ | exact rfl

end Connect.Worker
