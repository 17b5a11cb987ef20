/-
  Connect.Web.JobList — the template partials/job_queue.html, and the four routes of main.py
  that answer with it: `list_jobs`, `cancel_job`, `delete_job` and `clear_jobs`.

  The template prints a job's `duration_seconds` if that `is not none`. The dictionary of a
  job has no such key, so it is an `Undefined`, which is not None, and the comparison with
  3600 raises: a route renders without an error exactly when there is no job to show
  (`job_list_renders_iff`).

  Each route reads the jobs and the status in two transactions, behind its own. `others` is
  what else happens to the tables before each of the two.
-/

import Connect.Web.JobQueue

namespace Connect.Web

open Data Sql Jinja

/-! ## The template -/

namespace JobQueueHtml

def job (name : String) : Expr := .attr (.var "job") name

def status (name : String) : Expr := .attr (.var "queue_status") name

def number (n : Int) : Expr := .lit (.int n)

def positive (e : Expr) : Expr := .order .gt e (number 0)

def hasState (state : String) : Expr := .eq (job "status") (.lit (.str state))

def header : Node := .text "<div class=\"job-queue\"
     hx-get=\"/api/jobs\"
     hx-trigger=\"every 5s\"
     hx-swap=\"outerHTML\">
    <div class=\"job-queue-header\">
        <h3 class=\"job-queue-title\">Import jobs</h3>
        <div class=\"job-queue-actions\">
            "

def clearButton : Node := .text "
            <button
                class=\"btn btn-ghost btn-sm\"
                hx-post=\"/api/jobs/clear\"
                hx-target=\"closest .job-queue\"
                hx-swap=\"outerHTML\"
            >
                Clear history
            </button>
            "

def refreshButton : Node := .text "
            <button
                class=\"btn btn-ghost btn-sm\"
                hx-get=\"/api/jobs\"
                hx-target=\"closest .job-queue\"
                hx-swap=\"outerHTML\"
            >
                ↻ Refresh
            </button>
        </div>
    </div>

    "

def queueStatus : Node :=
  .cond (.or (positive (status "pending")) (positive (status "running")))
    (block [
      .text "\n    <div class=\"job-queue-status\">\n        ",
      .cond (positive (status "running"))
        (.text "\n        <span class=\"status-badge status-running\">1 running</span>\n        ") .skip,
      .text "\n        ",
      .cond (positive (status "pending"))
        (block [
          .text "\n        <span class=\"status-badge status-pending\">",
          .output (status "pending"),
          .text " pending</span>\n        "])
        .skip,
      .text "\n    </div>\n    "])
    .skip

def icon (mark : String) : Node := .text (mark ++ "\n                            ")

def statusIcon : Node :=
  .cond (hasState "pending") (icon "⏳")
    (.cond (hasState "running") (icon "🔄")
      (.cond (.and (.and (hasState "completed") (positive (job "failed_files")))
        (.eq (job "completed_files") (number 0))) (icon "❌")
        (.cond (.and (hasState "completed") (positive (job "failed_files"))) (icon "⚠️")
          (.cond (hasState "completed") (icon "✅")
            (.cond (hasState "failed") (icon "❌")
              (.cond (hasState "cancelled") (icon "🛑") .skip))))))

def progressText : Node :=
  .cond (positive (job "total_files"))
    (block [
      .text "\n                        <span class=\"job-progress-text\">\n                            ",
      .output (job "completed_files"),
      .text "/",
      .output (job "total_files"),
      .text " files\n                            ",
      .cond (positive (job "failed_files")) (block [.text "(", .output (job "failed_files"), .text " failed)"]) .skip,
      .text "\n                        </span>\n                        "])
    .skip

def duration : Node :=
  .cond (.not (.isNone (job "duration_seconds")))
    (block [
      .text "\n                        <span class=\"job-duration\">\n                            ⏱️ ",
      .cond (.order .ge (job "duration_seconds") (number 3600))
        (block [.output (.arith .floorDiv (job "duration_seconds") (number 3600)), .text "h "])
        .skip,
      .cond (.order .ge (job "duration_seconds") (number 60))
        (block [.output (.arith .floorDiv (.arith .mod (job "duration_seconds") (number 3600)) (number 60)),
          .text "m "])
        .skip,
      .output (.arith .mod (job "duration_seconds") (number 60)),
      .text "s\n                        </span>\n                        "])
    .skip

def throughput : Node :=
  .cond (.and (.not (.isNone (job "entries_per_second"))) (positive (job "entries_per_second")))
    (block [
      .text "\n                        <span class=\"job-throughput\">\n                            ⚡ ",
      .output (job "entries_per_second"),
      .text " entries/s\n                        </span>\n                        "])
    .skip

/-- How much of the job is done, in percent. -/
def percent : Expr :=
  .round (.arith .mul (.arith .div (.arith .add (job "completed_files") (job "failed_files"))
    (job "total_files")) (number 100))

def progressBar : Node :=
  .cond (.and (hasState "running") (positive (job "total_files")))
    (block [
      .text "
                    <div class=\"job-progress-bar\">
                        <div class=\"job-progress-fill\" style=\"width: ",
      .output percent,
      .text "%\"></div>\n                    </div>\n                    "])
    .skip

def error : Node :=
  .cond (job "error_message")
    (block [
      .text "\n                    <div class=\"job-error\">",
      .output (job "error_message"),
      .text "</div>\n                    "])
    .skip

def cancelButton : Node :=
  block [
    .text "
                    <button
                        class=\"btn btn-ghost btn-sm\"
                        hx-post=\"/api/jobs/",
    .output (job "id"),
    .text "/cancel\"
                        hx-target=\"closest .job-queue\"
                        hx-swap=\"outerHTML\"
                        title=\"Cancel\"
                    >
                        <img src=\"/static/img/icons/x.svg\" alt=\"Cancel\" class=\"icon icon-sm icon-muted\">
                    </button>
                    "]

def removeButton : Node :=
  block [
    .text "
                    <button
                        class=\"btn btn-ghost btn-sm\"
                        hx-delete=\"/api/jobs/",
    .output (job "id"),
    .text "\"
                        hx-target=\"closest .job-queue\"
                        hx-swap=\"outerHTML\"
                        title=\"Remove\"
                    >
                        <img src=\"/static/img/icons/trash.svg\" alt=\"Remove\" class=\"icon icon-sm icon-muted\">
                    </button>
                    "]

/-- A job up to its duration. -/
def jobHead : List Node := [
  .text "\n            <div class=\"job-item job-",
  .output (job "status"),
  .text "\">
                <div class=\"job-info\">
                    <div class=\"job-header\">
                        <span class=\"job-id\">#",
  .output (job "id"),
  .text "</span>\n                        <span class=\"job-status-icon\">\n                            ",
  statusIcon,
  .text "\n                        </span>\n                        <span class=\"job-prefix\">",
  .output (.or (job "prefix") (.lit (.str "Import all"))),
  .text "</span>
                    </div>
                    <div class=\"job-meta\">
                        <span class=\"job-bucket\">",
  .output (job "bucket"),
  .text "</span>\n                        ",
  progressText,
  .text "\n                        "]

def jobTail : List Node := [
  .text "\n                        ",
  throughput,
  .text "\n                    </div>\n                    ",
  progressBar,
  .text "\n                    ",
  error,
  .text "\n                </div>\n                <div class=\"job-actions\">\n                    ",
  .cond (.isIn (job "status") (.lit (.list [.str "pending", .str "running"]))) cancelButton removeButton,
  .text "\n                </div>\n            </div>\n            "]

def jobItem : Node := block (jobHead ++ duration :: jobTail)

def noJobs : Node := .text "
        <div class=\"job-empty\">
            <p>No import jobs</p>
            <p class=\"text-muted\">Use \"+ Queue\" on a folder in the Browser tab to queue a job</p>
        </div>
        "

/-- The page up to its list of jobs. -/
def pageHead : List Node := [
  header,
  .cond (.var "jobs") clearButton .skip,
  refreshButton,
  queueStatus,
  .text "\n\n    <div class=\"job-list\">\n        "]

def jobList : Node :=
  .cond (.var "jobs")
    (block ([.text "\n            "] ++ .loop "job" (.var "jobs") jobItem :: [.text "\n        "]))
    noJobs

def template : Node := block (pageHead ++ jobList :: [.text "\n    </div>\n</div>"])

end JobQueueHtml

/-! ## The routes -/

inductive PageError where
  | raised (e : Exc)
  | sql (e : SqlError)
  | template (e : Err)
  deriving DecidableEq, Repr

/-- What the template is given. -/
def context (jobs : List (List (String × Value))) (status : QueueStatus) : Env :=
  [("jobs", .list (jobs.map .dict)),
    ("queue_status", .dict [("pending", .int status.pending), ("running", .int status.running),
      ("connected", .bool status.connected)])]

/-- `get_jobs`, `get_queue_status` and the template. -/
def jobsPage (U : Unicode) (q : JobQueue) (others : Nat → Tables → Tables) (userId : Option String) (s : Tables) :
    Except PageError (List Jinja.Piece) := do
  let s₁ := others 0 s
  let jobs ← (getJobs U q s₁ userId).mapError .raised
  let s₂ := others 1 s₁
  let status ← (getQueueStatus U q s₂ userId).mapError .raised
  (render (context jobs status) JobQueueHtml.template).mapError .template

inductive JobRoute where
  | listJobs
  | cancelJob (jobId : Int)
  | deleteJob (jobId : Int)
  | clearJobs
  deriving DecidableEq, Repr

/-- The transaction of a route before it answers. -/
def JobRoute.transaction (u : Option Uuid) (s : Tables) : JobRoute → Except SqlError Tables
  | .listJobs => .ok s
  | .cancelJob jobId => if isInteger jobId then .ok (JobRepository.cancelJob s jobId u).2 else .error .dataError
  | .deleteJob jobId => if isInteger jobId then .ok (JobRepository.deleteForUser s jobId u).2 else .error .dataError
  | .clearJobs => .ok (JobRepository.clearCompletedForUser s u).2

def JobRoute.respond (U : Unicode) (q : JobQueue) (others : Nat → Tables → Tables) (userId : Option String)
    (s : Tables) (route : JobRoute) :
    Except PageError (List Jinja.Piece) := do
  let u ← (parsedUserId U userId).mapError .raised
  let s ← (route.transaction u s).mapError .sql
  jobsPage U q others userId s

/-! ## What the template raises -/

open JobQueueHtml

section Render

variable {env : Env} {j : Job}

/-- A field of the job, where it is one of the loop. -/
theorem eval_job (henv : env.lookup "job" = some (.dict (jobDict j))) {name : String}
    (hname : Value.dictMethods.contains name = false) :
    eval env (job name) = .ok (((jobDict j).lookup name).getD
      (.undefined ("'dict object' has no attribute '" ++ name ++ "'"))) :=
  eval_key (by rw [eval, henv]; rfl) hname

theorem evals_job (henv : env.lookup "job" = some (.dict (jobDict j))) {name : String}
    (hname : Value.dictMethods.contains name = false) :
    Evals env (job name) := ⟨_, eval_job henv hname⟩

theorem evals_positive {name : String} {n : Nat} (henv : env.lookup "job" = some (.dict (jobDict j)))
    (hname : Value.dictMethods.contains name = false) (hn : (jobDict j).lookup name = some (.int n)) :
    Evals env (positive (job name)) := by
  refine order_int (m := n) ?_ rfl
  rw [eval_job henv hname, hn]
  rfl

theorem evals_hasState (henv : env.lookup "job" = some (.dict (jobDict j))) (state : String) :
    Evals env (hasState state) :=
  .eq (eval_job henv (by decide)) rfl rfl

theorem renders_statusIcon (henv : env.lookup "job" = some (.dict (jobDict j))) : Renders env statusIcon := by
  have hstate := evals_hasState henv
  have hfailed : Evals env (positive (job "failed_files")) := evals_positive (n := j.failedFiles) henv (by decide) rfl
  have hcompleted : Evals env (.eq (job "completed_files") (number 0)) := .eq (eval_job henv (by decide)) rfl rfl
  exact .cond (hstate _) .text (.cond (hstate _) .text (.cond (((hstate _).and hfailed).and hcompleted) .text
    (.cond ((hstate _).and hfailed) .text
      (.cond (hstate _) .text (.cond (hstate _) .text (.cond (hstate _) .text .skip))))))

theorem renders_progressText (henv : env.lookup "job" = some (.dict (jobDict j))) : Renders env progressText := by
  have hfield : ∀ {name : String}, Value.dictMethods.contains name = false → Renders env (.output (job name)) :=
    fun hname => .output (evals_job henv hname)
  refine .cond (evals_positive (n := j.totalFiles) henv (by decide) rfl) (.block ?_) .skip
  have hfailed : Renders env (block [.text "(", .output (job "failed_files"), .text " failed)"]) := by
    refine .block ?_
    simp only [List.forall_mem_cons]
    exact ⟨.text, hfield (by decide), .text, fun _ h => nomatch h⟩
  simp only [List.forall_mem_cons]
  exact ⟨.text, hfield (by decide), .text, hfield (by decide), .text,
    .cond (evals_positive (n := j.failedFiles) henv (by decide) rfl) hfailed .skip, .text, fun _ h => nomatch h⟩

/-- Up to the duration nothing is wrong. -/
theorem renders_jobHead (henv : env.lookup "job" = some (.dict (jobDict j))) :
    ∀ node ∈ jobHead, Renders env node := by
  have hfield : ∀ {name : String}, Value.dictMethods.contains name = false → Renders env (.output (job name)) :=
    fun hname => .output (evals_job henv hname)
  have hprefix : Renders env (.output (.or (job "prefix") (.lit (.str "Import all")))) :=
    .output ((evals_job henv (by decide)).or ⟨_, rfl⟩)
  simp only [jobHead, List.forall_mem_cons]
  exact ⟨.text, hfield (by decide), .text, hfield (by decide), .text, renders_statusIcon henv, .text, hprefix, .text,
    hfield (by decide), .text, renders_progressText henv, .text, fun _ h => nomatch h⟩

def noDuration : Err := .undefinedError "'dict object' has no attribute 'duration_seconds'"

/-- The duration is not there, and it is not None. -/
theorem duration_raises (henv : env.lookup "job" = some (.dict (jobDict j))) :
    render env duration = .error noDuration := by
  have hmissing : eval env (job "duration_seconds") =
      .ok (.undefined "'dict object' has no attribute 'duration_seconds'") :=
    eval_job henv (by decide)
  unfold duration
  rw [render_yes (eval_not_isNone hmissing) rfl]
  refine render_block_error [_] (fun node hn => ?_) ?_
  · rw [List.mem_singleton.mp hn]
    exact .text
  · simp only [render_cond, order_undefined hmissing
      (show eval env (number 3600) = .ok (.int 3600) from rfl), error_bind]
    rfl

theorem jobItem_raises (henv : env.lookup "job" = some (.dict (jobDict j))) :
    render env jobItem = .error noDuration :=
  render_block_error jobHead (renders_jobHead henv) (duration_raises henv)

section Page

variable (jobs : List (List (String × Value))) (queue : QueueStatus)

theorem eval_status {name : String} {n : Nat} (hname : Value.dictMethods.contains name = false)
    (hn : List.lookup name [("pending", Value.int queue.pending), ("running", .int queue.running),
      ("connected", .bool queue.connected)] =
        some (.int n)) :
    eval (context jobs queue) (status name) = .ok (.int n) := by
  rw [status, eval_key rfl hname, hn]
  rfl

theorem renders_queueStatus : Renders (context jobs queue) queueStatus := by
  have hpending : eval (context jobs queue) (status "pending") = .ok (.int queue.pending) :=
    eval_status jobs queue (by decide) rfl
  have hrunning : eval (context jobs queue) (status "running") = .ok (.int queue.running) :=
    eval_status jobs queue (by decide) rfl
  have hsome : Evals (context jobs queue) (positive (status "pending")) := order_int hpending rfl
  have hbusy : Evals (context jobs queue) (positive (status "running")) := order_int hrunning rfl
  refine .cond (hsome.or hbusy) (.block ?_) .skip
  have hcount : Renders (context jobs queue) (block [
      .text "\n        <span class=\"status-badge status-pending\">", .output (status "pending"),
      .text " pending</span>\n        "]) := by
    refine .block ?_
    simp only [List.forall_mem_cons]
    exact ⟨.text, .output ⟨_, hpending⟩, .text, fun _ h => nomatch h⟩
  simp only [List.forall_mem_cons]
  exact ⟨.text, .cond hbusy .text .skip, .text, .cond hsome hcount .skip, .text, fun _ h => nomatch h⟩

theorem renders_pageHead : ∀ node ∈ pageHead, Renders (context jobs queue) node := by
  simp only [pageHead, List.forall_mem_cons]
  exact ⟨.text, .cond ⟨_, rfl⟩ .text .skip, .text, renders_queueStatus jobs queue, .text, fun _ h => nomatch h⟩

/-- Without a job the page is put out. -/
theorem template_renders : Renders (context [] queue) template := by
  have hlist : Renders (context [] queue) jobList := by
    unfold jobList Renders
    rw [render_no (v := .list []) rfl rfl]
    exact Renders.text
  refine .block ?_
  rw [List.forall_mem_append]
  refine ⟨renders_pageHead [] queue, ?_⟩
  simp only [List.forall_mem_cons]
  exact ⟨hlist, .text, fun _ h => nomatch h⟩

/-- With a job it is not. -/
theorem template_raises (j : Job) (rest : List Job) :
    render (context ((j :: rest).map jobDict) queue) template = .error noDuration := by
  refine render_block_error pageHead (renders_pageHead _ queue) ?_
  have hjobs : eval (context ((j :: rest).map jobDict) queue) (.var "jobs") =
      .ok (.list (.dict (jobDict j) :: (rest.map jobDict).map .dict)) :=
    rfl
  unfold jobList
  rw [render_yes hjobs rfl]
  refine render_block_error [_] (fun node hn => ?_) (render_loop_error hjobs (jobItem_raises rfl))
  rw [List.mem_singleton.mp hn]
  exact .text

end Page

end Render

/-! ## Which pages render -/

section Pages

variable (U : Unicode) (redisPool : Bool) (others : Nat → Tables → Tables) (u : Option Uuid) (s : Tables)

/-- The jobs of a page are there when the user has any. -/
theorem listForUser_nil_iff : JobRepository.listForUser s u 100 0 = [] ↔ userJobs s u = [] := by
  have hperm := (ordered_orderByDesc Job.createdAt (userJobs s u)).perm
  show ((orderByDesc Job.createdAt (userJobs s u)).drop 0).take 100 = [] ↔ _
  rw [List.drop_zero, List.take_eq_nil_iff]
  constructor
  · intro h
    rcases h with h | h
    · cases h
    · exact List.eq_nil_of_length_eq_zero (by rw [← hperm.length_eq, h]; rfl)
  · intro h
    exact Or.inr (List.eq_nil_of_length_eq_zero (by rw [hperm.length_eq, h]; rfl))

theorem jobsPage_eq : ∃ queue, jobsPage U ⟨true, redisPool⟩ others (u.map Uuid.str) s =
    (render (context ((JobRepository.listForUser (others 0 s) u 100 0).map jobDict) queue)
      template).mapError .template := by
  unfold jobsPage
  simp only [getJobs_eq, getQueueStatus_eq]
  exact ⟨_, rfl⟩

/-- A page meets no error of the template when the user has no job, and only then. -/
theorem jobsPage_iff : (∀ e, jobsPage U ⟨true, redisPool⟩ others
      (u.map Uuid.str) s ≠ .error (.template e)) ↔ userJobs (others 0 s) u = [] := by
  obtain ⟨queue, hpage⟩ := jobsPage_eq U redisPool others u s
  rw [hpage, ← listForUser_nil_iff]
  cases hjobs : JobRepository.listForUser (others 0 s) u 100 0 with
  | nil =>
    obtain ⟨pieces, hp⟩ := template_renders queue
    refine iff_of_true (fun e he => ?_) rfl
    rw [List.map_nil, hp] at he
    cases he
  | cons j rest =>
    refine iff_of_false (fun h => ?_) (by simp)
    exact h noDuration (by rw [template_raises]; rfl)

end Pages

/-- A route renders its answer without an error if and only if, once its own transaction is
    through, the user has no job when the jobs are read. -/
theorem job_list_renders_iff (U : Unicode) (redisPool : Bool) (others : Nat → Tables → Tables)
    (u : Option Uuid) (s : Tables) (route : JobRoute) :
    (∀ e, route.respond U ⟨true, redisPool⟩ others (u.map Uuid.str) s ≠ .error (.template e)) ↔
      ∀ t, route.transaction u s = .ok t → userJobs (others 0 t) u = [] := by
  have hrespond : route.respond U ⟨true, redisPool⟩ others (u.map Uuid.str) s =
      ((route.transaction u s).mapError .sql).bind fun t => jobsPage U ⟨true, redisPool⟩ others
        (u.map Uuid.str) t := by
    unfold JobRoute.respond
    rw [parsedUserId_str]
    rfl
  rw [hrespond]
  cases ht : route.transaction u s with
  | error e =>
    refine iff_of_true (fun _ he => ?_) nofun
    cases he
  | ok t =>
    refine (jobsPage_iff U redisPool others u t).trans ⟨fun h t' he => ?_, fun h => h t rfl⟩
    cases he
    exact h

/-- A user with one job. -/
def oneJob : Tables :=
  { fresh [] with importJobs := ⟨⟨[jobAt 0 "pending" 0], by simp [UniqueBy]⟩, 1, by simp [jobAt]⟩ }

theorem job_list_not_rendered :
    JobRoute.listJobs.respond ⟨fun _ => none, fun _ => false⟩ ⟨true, true⟩ (fun _ => id) none oneJob =
      .error (.template (.undefinedError "'dict object' has no attribute 'duration_seconds'")) := by
  obtain ⟨queue, hpage⟩ := jobsPage_eq ⟨fun _ => none, fun _ => false⟩ true (fun _ => id) none oneJob
  have hjobs : JobRepository.listForUser oneJob none 100 0 = [jobAt 0 "pending" 0] := by decide
  have hrespond : JobRoute.listJobs.respond ⟨fun _ => none, fun _ => false⟩ ⟨true, true⟩ (fun _ => id) none oneJob =
      jobsPage ⟨fun _ => none, fun _ => false⟩ ⟨true, true⟩ (fun _ => id)
        ((none : Option Uuid).map Uuid.str) oneJob := rfl
  rw [hrespond, hpage, id, hjobs, template_raises]
  rfl

end Connect.Web
