/-
  Connect.Bootstrap.Wizard — the screens of connect-bootstrap (app.py, screens/*.py).

  A stack of screens, the top one with the keyboard. A screen's `next` button opens the
  following step on top of it, Escape takes a screen away, and where a screen has no
  binding of its own for `n` the application's is reached, which opens step 1 on top. A
  screen has at most one worker (`run_worker(..., exclusive=True)` cancels the one
  before), which goes on under other screens and ends with its screen. An exception that
  leaves a worker or a handler closes the application.

  `log` is what happened: the gates that were passed, the outputs of terraform that were
  captured, and the commands that change AWS. Proved, over every run (any keys, clicks and
  answers, in any order):
  - `steps_in_order`: a step is only on the stack after the gates of all steps before it
    were passed, in their order, and a command is only run after what it needs: an apply
    after a plan that exited 0, a secret after the apply, deploy.sh after the secrets and
    an ACTIVE cluster.
  - `log_told`: a secret goes to the region verified last, and deploy.sh gets that region
    and the names of the outputs captured last.
  - `one_region`: where the operator does not start the wizard over on top of itself, nor
    leaves step 2 while a verification runs, what a command needs was last passed in one
    region, and the command is run there.
-/

import Mathlib.Data.List.Nodup
import Connect.Json
import Connect.Tfvars.Form

namespace Connect.Bootstrap

inductive Step where
  | deps
  | auth
  | tfvars
  | apply
  | secrets
  | cluster
  | deploy
  | status
  deriving DecidableEq, Repr

structure Dep where
  name : String
  required : Bool
  deriving DecidableEq, Repr

def DEPS : List Dep := [⟨"aws", true⟩, ⟨"terraform", true⟩, ⟨"jq", true⟩, ⟨"gh", false⟩, ⟨"docker", false⟩]

/-- The outputs of terraform that later screens read. -/
structure Names where
  clusterName : Option String := none
  webServiceName : Option String := none
  workerServiceName : Option String := none
  migrateTaskDefinitionFamily : Option String := none
  deriving DecidableEq, Repr

structure WizardState extends Names where
  awsRegion : String := "us-east-1"
  env : String := "prod"
  applySucceeded : Bool := false
  secretsSeeded : Bool := false
  deploySucceeded : Bool := false
  deriving DecidableEq, Repr

/-- What deploy.sh finds in its environment. -/
structure DeployEnv where
  awsRegion : String
  clusterName : String
  webService : String
  workerService : String
  migrateTaskDefFamily : String
  webTaskDefFamily : String
  workerTaskDefFamily : String
  tag : Option String
  deriving DecidableEq, Repr

/-- The commands that change AWS. -/
inductive Command where
  | terraformApply
  | putSecretValue (secretId region : String)
  | deploySh (env : DeployEnv)
  deriving DecidableEq, Repr

/-- What a screen waits for before its `next` button, or `apply` button, is enabled. -/
inductive Gate where
  | depsOk
  | verified
  | saved
  | planned
  | applied
  | seeded
  | active
  | deployed
  deriving DecidableEq, Repr

inductive Entry where
  /-- A gate, and the region of the state then. -/
  | passed (g : Gate) (region : String)
  | captured (names : Names)
  | ran (c : Command)
  deriving DecidableEq, Repr

/-- The workers of the screens. -/
inductive Task where
  | refreshDeps
  | verify
  | runPlan
  | runApply
  | seed
  | refreshCluster
  | deploy
  deriving DecidableEq, Repr

/-- Where a worker is: not begun, or at an await. -/
inductive Job where
  | begun (t : Task)
  | probe (dep : Dep) (left : List Dep) (ok : Bool)
  | ssoLogin (region : String)
  | identity (region : String)
  | init
  | plan
  | apply
  | outputs
  | deploySh
  deriving DecidableEq, Repr

structure Screen where
  id : Nat
  step : Step
  nextEnabled : Bool := false
  /-- Of the apply screen. -/
  applyEnabled : Bool := false
  worker : Option Job := none
  deriving DecidableEq, Repr

inductive Method where
  | env
  | sso
  | ministack
  deriving DecidableEq, Repr

/-- What a worker or a handler finds outside when it goes on. -/
structure World where
  /-- `shutil.which`. -/
  which : String → Bool
  /-- The exit code of the command that was awaited; `none` when the call raised. -/
  exit : Option Int
  stdout : String
  method : Method
  profile : String
  region : String
  /-- The inputs of the form. -/
  form : List (Tfvars.Field × String)
  writable : Bool
  jwt : String
  adminEmail : String
  adminPassword : String
  /-- Whether `boto3_client` returns a client. -/
  client : Bool
  /-- Whether `put_secret_value` returns, by the secret's id. -/
  accepts : String → Bool
  /-- The `status` of each cluster; `none` when `describe_clusters` raised. -/
  clusters : Option (List (Option String))
  hasScript : Bool
  tag : String

structure App where
  state : WizardState := {}
  /-- The top first; the home screen is below. -/
  stack : List Screen := []
  next : Nat := 0
  exited : Bool := false
  log : List Entry := []

/-! ## Workers -/

/-- What a worker has done when it waits again or is at its end. -/
structure Went where
  screen : Screen
  state : WizardState
  entries : List Entry := []
  /-- An exception left it. -/
  crashed : Bool := false

section Workers

variable (P : Tfvars.CPython) (room : Nat) (s : WizardState) (sc : Screen) (w : World)

def Screen.waits (job : Job) : Went := ⟨{ sc with worker := some job }, s, [], false⟩

/-- The worker returns. -/
def Screen.ends : Went := ⟨{ sc with worker := none }, s, [], false⟩

/-- An exception leaves it. -/
def Screen.crash : Went := ⟨{ sc with worker := none }, s, [], true⟩

/-- It passes the gate, and the `next` button is enabled. -/
def Screen.passes (g : Gate) (s : WizardState) : Went :=
  ⟨{ sc with worker := none, nextEnabled := true }, s, [.passed g s.awsRegion], false⟩

/-- A command was awaited: another exit code than 0 is reported, and the worker returns. -/
def Screen.exited (exit : Option Int) (success : Went) : Went :=
  match exit with
  | some 0 => success
  | some _ => sc.ends s
  | none => sc.crash s

/-- The loop of `DepsCheckScreen._refresh` up to the next tool that is found, or its end. -/
def nextProbe (which : String → Bool) : List Dep → Bool → Job ⊕ Bool
  | [], ok => .inr ok
  | dep :: left, ok =>
    if which dep.name then .inl (.probe dep left ok) else nextProbe which left (ok && !dep.required)

def refreshDeps (left : List Dep) (ok : Bool) : Went :=
  match nextProbe w.which left ok with
  | .inl job => sc.waits s job
  | .inr true => sc.passes .depsOk s
  | .inr false => ⟨{ sc with worker := none, nextEnabled := false }, s, [], false⟩

/-- `input.value.strip()`. -/
def stripped (value : String) : String := String.ofList (Tfvars.strip value.toList)

def verify : Went :=
  let profile := stripped w.profile
  let region := if stripped w.region = "" then "us-east-1" else stripped w.region
  if w.method = .sso ∧ profile ≠ "" then sc.waits s (.ssoLogin region) else sc.waits s (.identity region)

/-- `json.loads(out)` and the two `ident.get`. -/
def verified (region : String) : Went :=
  match Json.loads room w.stdout with
  | .ok (.obj _) => sc.passes .verified { s with awsRegion := region }
  | .error .decodeError => sc.ends s
  | _ => sc.crash s

/-- `_v`: a string, or None. -/
def output (outputs : List (String × Json)) (name : String) : Except Unit (Option String) :=
  match Json.getD outputs name (.obj []) with
  | .obj fields =>
    match fields.lookup "value" with
    | some (.str v) => .ok (some v)
    | _ => .ok none
  | _ => .error ()

def outputNames (outputs : List (String × Json)) : Except Unit Names := do
  let clusterName ← output outputs "cluster_name"
  let webServiceName ← output outputs "web_service_name"
  let workerServiceName ← output outputs "worker_service_name"
  let migrateTaskDefinitionFamily ← output outputs "migrate_task_definition_family"
  return ⟨clusterName, webServiceName, workerServiceName, migrateTaskDefinitionFamily⟩

/-- The end of `_run_apply`, after `_capture_outputs` caught what it could not read. -/
def applied (s : WizardState) (entries : List Entry) : Went :=
  ⟨{ sc with worker := none, nextEnabled := true }, { s with applySucceeded := true }, entries, false⟩

def captureOutputs (rc : Int) : Went :=
  if rc ≠ 0 then applied sc s []
  else
    match Json.loads room w.stdout with
    | .error .decodeError => applied sc s []
    | .ok (.obj outputs) =>
      match outputNames outputs with
      | .ok names => applied sc { s with toNames := names } [.captured names]
      | .error _ => sc.crash s
    | _ => sc.crash s

def isHex (c : Char) : Bool := (hexDigit c).isSome

/-- The two secrets, in their order; the second is not written when the first is refused. -/
def seed : Went :=
  let jwt := stripped w.jwt
  let adminEmail := stripped w.adminEmail
  let jwtId := "/connect/" ++ s.env ++ "/jwt"
  let adminId := "/connect/" ++ s.env ++ "/admin"
  if jwt = "" ∨ adminEmail = "" ∨ w.adminPassword = "" then sc.ends s
  else if jwt.length < 64 ∨ jwt.toList.all isHex = false then sc.ends s
  else if w.adminPassword.length < 8 then sc.ends s
  else if w.client = false then sc.crash s
  else if w.accepts jwtId = false then { sc.ends s with entries := [.ran (.putSecretValue jwtId s.awsRegion)] }
  else if w.accepts adminId = false then
    { sc.ends s with entries := [.ran (.putSecretValue jwtId s.awsRegion),
      .ran (.putSecretValue adminId s.awsRegion)] }
  else
    { screen := { sc with worker := none, nextEnabled := true }
      state := { s with secretsSeeded := true }
      entries := [.ran (.putSecretValue jwtId s.awsRegion), .ran (.putSecretValue adminId s.awsRegion),
        .passed .seeded s.awsRegion] }

def refreshCluster : Went :=
  match truthy s.clusterName with
  | none => sc.ends s
  | some _ =>
    if w.client = false then sc.crash s
    else
      match w.clusters with
      | some (some "ACTIVE" :: _) => sc.passes .active s
      | _ => sc.ends s

/-- `_preflight`: None when deploy.sh can be run. -/
def preflight : Option (String × String × String) :=
  match truthy s.clusterName, truthy s.webServiceName, truthy s.workerServiceName with
  | some cluster, some web, some worker =>
    if w.hasScript ∧ w.which "docker" then some (cluster, web, worker) else none
  | _, _, _ => none

def deployEnv (cluster web worker : String) : DeployEnv where
  awsRegion := s.awsRegion
  clusterName := cluster
  webService := web
  workerService := worker
  migrateTaskDefFamily := (truthy s.migrateTaskDefinitionFamily).getD ("connect-" ++ s.env ++ "-migrate")
  webTaskDefFamily := "connect-" ++ s.env ++ "-web"
  workerTaskDefFamily := "connect-" ++ s.env ++ "-worker"
  tag := truthy (some (stripped w.tag))

def deploy : Went :=
  match preflight s w with
  | none => sc.ends s
  | some (cluster, web, worker) =>
    { sc.waits s .deploySh with entries := [.ran (.deploySh (deployEnv s w cluster web worker))] }

/-- The first stretch of a worker. -/
def begin_ : Task → Went
  | .refreshDeps => refreshDeps s sc w DEPS true
  | .verify => verify s sc w
  | .runPlan => sc.waits s .init
  | .runApply => { sc.waits s .apply with entries := [.ran .terraformApply] }
  | .seed => seed s sc w
  | .refreshCluster => refreshCluster s sc w
  | .deploy => deploy s sc w

/-- What was awaited has ended: with an exit code, or in an exception. -/
def resume : Job → Went
  | .begun t => begin_ s sc w t
  | .probe dep left ok => refreshDeps s sc w left (ok && (w.exit == some 0 || !dep.required))
  | .ssoLogin region => sc.exited s w.exit (sc.waits s (.identity region))
  | .identity region => sc.exited s w.exit (verified room s sc w region)
  | .init => sc.exited s w.exit (sc.waits s .plan)
  | .plan =>
    sc.exited s w.exit ⟨{ sc with worker := none, applyEnabled := true }, s, [.passed .planned s.awsRegion], false⟩
  | .apply => sc.exited s w.exit { sc.waits s .outputs with entries := [.passed .applied s.awsRegion] }
  | .outputs =>
    match w.exit with
    | some rc => captureOutputs room s sc w rc
    | none => sc.crash s
  | .deploySh => sc.exited s w.exit (sc.passes .deployed { s with deploySucceeded := true })

/-- `TfvarsFormScreen._save`. -/
def save : Went :=
  match Tfvars.collect P w.form with
  | .error _ => { sc.crash s with screen := sc }
  | .ok (values, missing) =>
    if missing ≠ [] ∨ w.writable = false then ⟨sc, s, [], false⟩
    else
      ⟨{ sc with nextEnabled := true }, { s with env := P.str ((values.lookup "env").getD (.str "prod")) },
        [.passed .saved s.awsRegion], false⟩

end Workers

/-! ## Keys and buttons -/

inductive Key where
  | n
  | r
  | p
  | a
  | q
  | escape
  | ctrlJ
  | ctrlV
  | ctrlS
  | ctrlD
  deriving DecidableEq, Repr

inductive Button where
  | next
  | recheck
  | verify
  | save
  | plan
  | apply
  | seed
  | refresh
  | deploy
  deriving DecidableEq, Repr

inductive Action where
  | quit
  | nextStep
  | popScreen
  | advance
  | doApply
  | save
  | run (t : Task)
  deriving DecidableEq, Repr

/-- `BINDINGS` of a screen. -/
def Step.binding : Step → Key → Option Action
  | _, .escape => some .popScreen
  | .deps, .n | .apply, .n | .cluster, .n => some .advance
  | .deps, .r => some (.run .refreshDeps)
  | .auth, .ctrlJ | .tfvars, .ctrlJ | .secrets, .ctrlJ | .deploy, .ctrlJ => some .advance
  | .auth, .ctrlV => some (.run .verify)
  | .tfvars, .ctrlS => some .save
  | .apply, .p => some (.run .runPlan)
  | .apply, .a => some .doApply
  | .cluster, .r => some (.run .refreshCluster)
  | .deploy, .ctrlD => some (.run .deploy)
  | _, _ => none

/-- `BootstrapApp.BINDINGS`. -/
def appBinding : Key → Option Action
  | .q => some .quit
  | .n => some .nextStep
  | _ => none

/-- `on_button_pressed` of a screen. -/
def Step.button : Step → Button → Option Action
  | .status, _ => none
  | _, .next => some .advance
  | .deps, .recheck => some (.run .refreshDeps)
  | .auth, .verify => some (.run .verify)
  | .tfvars, .save => some .save
  | .apply, .plan => some (.run .runPlan)
  | .apply, .apply => some .doApply
  | .secrets, .seed => some (.run .seed)
  | .cluster, .refresh => some (.run .refreshCluster)
  | .deploy, .deploy => some (.run .deploy)
  | _, _ => none

/-- The screen that `_advance` pushes. -/
def Step.following : Step → Option Step
  | .deps => some .auth
  | .auth => some .tfvars
  | .tfvars => some .apply
  | .apply => some .secrets
  | .secrets => some .cluster
  | .cluster => some .deploy
  | .deploy => some .status
  | .status => none

/-- The worker that `on_mount` starts. -/
def Step.mounted : Step → Option Job
  | .deps => some (.begun .refreshDeps)
  | .cluster => some (.begun .refreshCluster)
  | _ => none

inductive Event where
  | key (k : Key) (w : World)
  | click (b : Button) (w : World)
  /-- The worker of a screen goes on. -/
  | work (id : Nat) (w : World)

namespace App

variable (P : Tfvars.CPython) (room : Nat) (app : App)

def push (t : Step) : App :=
  { app with stack := ⟨app.next, t, false, false, t.mounted⟩ :: app.stack, next := app.next + 1 }

/-- The screen with its changes, wherever it is in the stack. -/
def went (r : Went) : App :=
  { app with
    state := r.state
    stack := app.stack.map fun sc => if sc.id = r.screen.id then r.screen else sc
    exited := r.crashed
    log := app.log ++ r.entries }

/-- `run_worker(..., exclusive=True)`: the screen's other worker is cancelled. -/
def runWorker (sc : Screen) (t : Task) : App := app.went (sc.waits app.state (.begun t))

/-- An action of the top screen. -/
def act (w : World) (sc : Screen) : Action → App
  | .quit => { app with exited := true }
  | .nextStep => app.push .deps
  | .popScreen => { app with stack := app.stack.drop 1 }
  | .advance => if sc.nextEnabled then (sc.step.following.map app.push).getD app else app
  | .doApply => if sc.applyEnabled then app.runWorker sc .runApply else app
  | .save => app.went (Bootstrap.save P app.state sc w)
  | .run t => app.runWorker sc t

def perform (w : World) (onScreen : Step → Option Action) (onApp : Option Action) : App :=
  match app.stack with
  | sc :: _ =>
    match (onScreen sc.step).or onApp with
    | some a => app.act P w sc a
    | none => app
  | [] =>
    match onApp with
    | some .quit => { app with exited := true }
    | some .nextStep => app.push .deps
    | _ => app

/-- Nothing happens once the application is closed. -/
def step : Event → App
  | e =>
    if app.exited then app
    else
      match e with
      | .key k w => app.perform P w (·.binding k) (appBinding k)
      | .click b w => app.perform P w (·.button b) none
      | .work id w =>
        match app.stack.find? (·.id == id) with
        | some sc =>
          match sc.worker with
          | some job => app.went (resume room app.state sc w job)
          | none => app
        | none => app

def run (es : List Event) : App := es.foldl (App.step P room) {}

end App

/-! ## The order of the steps -/

/-- What is passed before a step, in order. -/
def Step.before : Step → List Gate
  | .deps => []
  | .auth => [.depsOk]
  | .tfvars => [.depsOk, .verified]
  | .apply => [.depsOk, .verified, .saved]
  | .secrets => [.depsOk, .verified, .saved, .planned, .applied]
  | .cluster => [.depsOk, .verified, .saved, .planned, .applied, .seeded]
  | .deploy => [.depsOk, .verified, .saved, .planned, .applied, .seeded, .active]
  | .status => [.depsOk, .verified, .saved, .planned, .applied, .seeded, .active, .deployed]

/-- What enables its `next` button. -/
def Step.own : Step → List Gate
  | .deps => [.depsOk]
  | .auth => [.verified]
  | .tfvars => [.saved]
  | .apply => [.planned, .applied]
  | .secrets => [.seeded]
  | .cluster => [.active]
  | .deploy => [.deployed]
  | .status => []

theorem before_following {t t' : Step} (h : t.following = some t') : t'.before = t.before ++ t.own := by
  cases t <;> cases h <;> rfl

def gates (log : List Entry) : List Gate :=
  log.filterMap fun
    | .passed g _ => some g
    | _ => none

/-- What is passed before a command is run. -/
def Command.needs : Command → List Gate
  | .terraformApply => Step.apply.before ++ [.planned]
  | .putSecretValue _ _ => Step.secrets.before
  | .deploySh _ => Step.deploy.before

def Task.step : Task → Step
  | .refreshDeps => .deps
  | .verify => .auth
  | .runPlan | .runApply => .apply
  | .seed => .secrets
  | .refreshCluster => .cluster
  | .deploy => .deploy

def Job.step : Job → Step
  | .begun t => t.step
  | .probe _ _ _ => .deps
  | .ssoLogin _ | .identity _ => .auth
  | .init | .plan | .apply | .outputs => .apply
  | .deploySh => .deploy

/-- What its screen passed before a worker got there. -/
def Job.needs : Job → List Gate
  | .begun .runApply | .apply => [.planned]
  | .outputs => [.planned, .applied]
  | _ => []

/-- What a screen shows was passed for, in the sense of `H`. -/
structure Earned (H : List Gate → Prop) (sc : Screen) : Prop where
  before : H sc.step.before
  next : sc.nextEnabled = true → H (sc.step.before ++ sc.step.own)
  apply : sc.applyEnabled = true → sc.step = .apply ∧ H (sc.step.before ++ [Gate.planned])
  worker : ∀ job, sc.worker = some job → job.step = sc.step ∧ H (sc.step.before ++ job.needs)

/-- Every command was run after what it needs. -/
def InTurn (H : List Entry → List Gate → Prop) (log : List Entry) : Prop :=
  ∀ pre c post, log = pre ++ .ran c :: post → H pre c.needs

/-- Commands, and gates of a region, verifications apart. -/
def Quiet (region : String) (es : List Entry) : Prop := ∀ g r, Entry.passed g r ∈ es → g ≠ .verified ∧ r = region

/-- A sense of being passed that lasts while nothing is verified. -/
structure Lasting (H : List Entry → List Gate → Prop) (log : List Entry) (region : String) : Prop where
  grow : ∀ {es xs}, Quiet region es → H log xs → H (log ++ es) xs
  pass : ∀ es {xs g}, Quiet region es → g ≠ .verified → H log xs → H (log ++ (es ++ [.passed g region])) (xs ++ [g])

theorem InTurn.append {H : List Entry → List Gate → Prop} {log es : List Entry} (h : InTurn H log)
    (hes : ∀ pre c post, es = pre ++ .ran c :: post → H (log ++ pre) c.needs) : InTurn H (log ++ es) := by
  intro pre c post he
  rcases List.append_eq_append_iff.mp he with ⟨as, rfl, has⟩ | ⟨bs, hlog, hbs⟩
  · exact hes as c post has
  · cases bs with
    | nil =>
      have hc := hes [] c post hbs.symm
      rwa [hlog, List.append_nil, List.append_nil] at hc
    | cons b bs =>
      obtain ⟨rfl, hpost⟩ := List.cons.inj hbs
      exact h pre c bs hlog

/-- What a worker may do to its screen and to the log; the other screens keep what they had. -/
structure Good (H : List Entry → List Gate → Prop) (stack : List Screen) (log : List Entry) (sc : Screen)
    (r : Went) : Prop where
  id : r.screen.id = sc.id
  step : r.screen.step = sc.step
  earned : Earned (H (log ++ r.entries)) r.screen
  others : ∀ sc' ∈ stack, sc'.id ≠ sc.id → Earned (H log) sc' → Earned (H (log ++ r.entries)) sc'
  commands : ∀ pre c post, r.entries = pre ++ .ran c :: post → H (log ++ pre) c.needs

section Good

variable {H : List Entry → List Gate → Prop} {stack : List Screen} {log : List Entry} {sc : Screen} {s : WizardState}

theorem commands_quiet (cs : List Command) (region : String) : Quiet region (cs.map .ran) := fun g r hm => by
  obtain ⟨c, -, hc⟩ := List.mem_map.mp hm
  cases hc

/-- Commands first, and nothing but commands before a command. -/
theorem commands_first (L : Lasting H log s.awsRegion) (cs : List Command) {es : List Entry}
    (hes : ∀ c, Entry.ran c ∉ es)
    (hc : ∀ c ∈ cs, H log c.needs) : ∀ pre c post, cs.map .ran ++ es = pre ++ .ran c :: post →
    H (log ++ pre) c.needs := by
  intro pre c post he
  rcases List.append_eq_append_iff.mp he with ⟨as, rfl, has⟩ | ⟨bs, hcs, hbs⟩
  · exact absurd (by rw [has]; simp) (hes c)
  · cases bs with
    | nil => exact absurd (by rw [← List.nil_append es, ← hbs]; simp) (hes c)
    | cons b bs =>
      obtain ⟨rfl, hpost⟩ := List.cons.inj hbs
      obtain ⟨ds, ds', rfl, rfl, hd⟩ := List.map_eq_append_iff.mp hcs
      obtain ⟨d, ds', rfl, hd, -⟩ := List.map_eq_cons_iff.mp hd
      cases hd
      exact L.grow (commands_quiet ds s.awsRegion) (hc c (by simp))

theorem Earned.mono {H H' : List Gate → Prop} (h : Earned H sc) (hmono : ∀ {xs}, H xs → H' xs) : Earned H' sc where
  before := hmono h.before
  next hn := hmono (h.next hn)
  apply ha := ⟨(h.apply ha).1, hmono (h.apply ha).2⟩
  worker job hw := ⟨(h.worker job hw).1, hmono (h.worker job hw).2⟩

theorem Earned.grow (L : Lasting H log s.awsRegion) (h : Earned (H log) sc) {es : List Entry}
    (hes : Quiet s.awsRegion es) :
    Earned (H (log ++ es)) sc :=
  h.mono (L.grow hes)

/-- It does not pass a gate. -/
theorem good_of_ran (L : Lasting H log s.awsRegion) (cs : List Command) {screen : Screen} {s' : WizardState}
    {crashed : Bool}
    (hid : screen.id = sc.id) (hstep : screen.step = sc.step) (he : Earned (H log) screen)
    (hc : ∀ c ∈ cs, H log c.needs) :
    Good H stack log sc ⟨screen, s', cs.map .ran, crashed⟩ where
  id := hid
  step := hstep
  earned := he.grow L (commands_quiet cs _)
  others _ _ _ h := h.grow L (commands_quiet cs _)
  commands := by
    have hf := commands_first L cs (fun _ => List.not_mem_nil) hc
    rwa [List.append_nil] at hf

theorem Earned.waits (h : Earned (H log) sc) {job : Job} (hs : job.step = sc.step)
    (hn : H log (sc.step.before ++ job.needs)) :
    Earned (H log) { sc with worker := some job } :=
  ⟨h.before, h.next, h.apply, fun job' hw => by cases hw; exact ⟨hs, hn⟩⟩

theorem Earned.ends (h : Earned (H log) sc) : Earned (H log) { sc with worker := none } :=
  ⟨h.before, h.next, h.apply, fun _ hw => by cases hw⟩

theorem silent_good (L : Lasting H log s.awsRegion) {screen : Screen} {s' : WizardState} {crashed : Bool}
    (hid : screen.id = sc.id)
    (hstep : screen.step = sc.step) (he : Earned (H log) screen) : Good H stack log sc ⟨screen, s', [], crashed⟩ :=
  good_of_ran L [] hid hstep he fun _ hm => by cases hm

theorem waits_good (L : Lasting H log s.awsRegion) (h : Earned (H log) sc) {job : Job}
    (hs : job.step = sc.step) (hn : job.needs = []) :
    Good H stack log sc (sc.waits s job) :=
  silent_good L rfl rfl (h.waits hs (by rw [hn, List.append_nil]; exact h.before))

theorem ends_good (L : Lasting H log s.awsRegion) (h : Earned (H log) sc) (crashed : Bool) :
    Good H stack log sc ⟨{ sc with worker := none }, s, [], crashed⟩ :=
  silent_good L rfl rfl h.ends

/-- A last gate after what a screen had, with commands before it. -/
theorem gate_good (L : Lasting H log s.awsRegion) (h : Earned (H log) sc) (cs : List Command) {g : Gate}
    {s' : WizardState}
    (hown : sc.step.own = [g]) (hv : g ≠ .verified) (hc : ∀ c ∈ cs, H log c.needs) (worker : Option Job)
    (hw : worker = none ∨ worker = sc.worker) :
    Good H stack log sc ⟨{ sc with worker := worker, nextEnabled := true }, s',
      cs.map .ran ++ [.passed g s.awsRegion], false⟩ := by
  have hq : Quiet s.awsRegion (cs.map .ran ++ [.passed g s.awsRegion]) := by
    intro g' r hm
    rcases List.mem_append.mp hm with hm | hm
    · exact commands_quiet cs _ g' r hm
    · cases List.mem_singleton.mp hm
      exact ⟨hv, rfl⟩
  have he := h.grow L hq
  refine ⟨rfl, rfl, ⟨he.before, fun _ => ?_, he.apply, fun job hj => ?_⟩, fun _ _ _ h => h.grow L hq, ?_⟩
  · show H _ (sc.step.before ++ sc.step.own)
    rw [hown]
    exact L.pass _ (commands_quiet cs _) hv h.before
  · rcases hw with rfl | rfl
    · cases hj
    · exact he.worker job hj
  · exact commands_first L cs (fun c hm => by cases List.mem_singleton.mp hm) hc

theorem passes_good (L : Lasting H log s.awsRegion) (h : Earned (H log) sc) {g : Gate} {s' : WizardState}
    (hown : sc.step.own = [g])
    (hv : g ≠ .verified) (hr : s'.awsRegion = s.awsRegion) : Good H stack log sc (sc.passes g s') := by
  have hg := @gate_good H stack log sc s L h [] g s' hown hv (fun _ hm => by cases hm) none (Or.inl rfl)
  rw [← hr] at hg
  exact hg

theorem nextProbe_job {which : String → Bool} {left : List Dep} {ok : Bool} {job : Job}
    (h : nextProbe which left ok = .inl job) : job.step = .deps ∧ job.needs = [] := by
  induction left generalizing ok with
  | nil => cases h
  | cons dep left ih =>
    unfold nextProbe at h
    split at h
    · cases h
      exact ⟨rfl, rfl⟩
    · exact ih h

variable (P : Tfvars.CPython) (room : Nat) (w : World)

theorem refreshDeps_good (L : Lasting H log s.awsRegion) (h : Earned (H log) sc) (hs : sc.step = .deps)
    (left : List Dep) (ok : Bool) :
    Good H stack log sc (refreshDeps s sc w left ok) := by
  unfold refreshDeps
  split
  · rename_i job hj
    obtain ⟨hstep, hn⟩ := nextProbe_job hj
    exact waits_good L h (hstep.trans hs.symm) hn
  · exact passes_good L h (by rw [hs]; rfl) (by decide) rfl
  · refine silent_good L rfl rfl ⟨h.before, fun hn => ?_, h.apply, fun _ hw => ?_⟩
    · cases hn
    · cases hw

theorem verify_good (L : Lasting H log s.awsRegion) (h : Earned (H log) sc) (hs : sc.step = .auth) :
    Good H stack log sc (verify s sc w) := by
  unfold verify
  simp only []
  split
  · exact waits_good L h hs.symm rfl
  · exact waits_good L h hs.symm rfl

theorem verified_good (L : Lasting H log s.awsRegion) (h : Earned (H log) sc) (region : String)
    (hv : Good H stack log sc (sc.passes .verified { s with awsRegion := region })) :
    Good H stack log sc (verified room s sc w region) := by
  unfold verified
  split
  · exact hv
  · exact ends_good L h false
  · exact ends_good L h true

theorem captureOutputs_good (L : Lasting H log s.awsRegion) (h : Earned (H log) sc) (hs : sc.step = .apply)
    (hn : H log (sc.step.before ++ [Gate.planned, Gate.applied])) (rc : Int) :
    Good H stack log sc (captureOutputs room s sc w rc) := by
  have he : Earned (H log) { sc with worker := none, nextEnabled := true } := by
    refine ⟨h.before, fun _ => ?_, h.apply, fun _ hw => by cases hw⟩
    show H log (sc.step.before ++ sc.step.own)
    rw [hs] at hn ⊢
    exact hn
  unfold captureOutputs
  split
  · exact silent_good L rfl rfl he
  split
  · exact silent_good L rfl rfl he
  · split
    · rename_i names _
      have hq : Quiet s.awsRegion [.captured names] := fun g r hm => by cases List.mem_singleton.mp hm
      refine ⟨rfl, rfl, he.grow L hq, fun _ _ _ h => h.grow L hq, commands_first L [] (fun c hm => ?_) fun _ hm => ?_⟩
      · cases List.mem_singleton.mp hm
      · cases hm
    · exact ends_good L h true
  · exact ends_good L h true

theorem seed_good (L : Lasting H log s.awsRegion) (h : Earned (H log) sc) (hs : sc.step = .secrets) :
    Good H stack log sc (seed s sc w) := by
  have hput : ∀ id region, H log (Command.putSecretValue id region).needs := by
    intro id region
    have hb := h.before
    rw [hs] at hb
    exact hb
  unfold seed
  simp only []
  split
  · exact ends_good L h false
  split
  · exact ends_good L h false
  split
  · exact ends_good L h false
  split
  · exact ends_good L h true
  split
  · refine @good_of_ran H stack log sc s L [.putSecretValue _ _] _ _ _ rfl rfl h.ends fun c hc => ?_
    cases List.mem_singleton.mp hc
    exact hput _ _
  split
  · refine @good_of_ran H stack log sc s L [.putSecretValue _ _, .putSecretValue _ _] _ _ _ rfl rfl h.ends
      fun c hc => ?_
    simp only [List.mem_cons, List.not_mem_nil, or_false] at hc
    rcases hc with rfl | rfl <;> exact hput _ _
  · refine gate_good L h [.putSecretValue _ _, .putSecretValue _ _] (by rw [hs]; rfl) (by decide)
      (fun c hc => ?_) none
      (Or.inl rfl)
    simp only [List.mem_cons, List.not_mem_nil, or_false] at hc
    rcases hc with rfl | rfl <;> exact hput _ _

theorem refreshCluster_good (L : Lasting H log s.awsRegion) (h : Earned (H log) sc) (hs : sc.step = .cluster) :
    Good H stack log sc (refreshCluster s sc w) := by
  unfold refreshCluster
  split
  · exact ends_good L h false
  split
  · exact ends_good L h true
  split
  · exact passes_good L h (by rw [hs]; rfl) (by decide) rfl
  · exact ends_good L h false

theorem deploy_good (L : Lasting H log s.awsRegion) (h : Earned (H log) sc) (hs : sc.step = .deploy) :
    Good H stack log sc (deploy s sc w) := by
  unfold deploy
  split
  · exact ends_good L h false
  · refine @good_of_ran H stack log sc s L [.deploySh _] _ _ _ rfl rfl
      (@Earned.waits H log sc h .deploySh hs.symm ?_) fun c hc => ?_
    · show H log (sc.step.before ++ [])
      rw [List.append_nil]
      exact h.before
    · cases List.mem_singleton.mp hc
      have hb := h.before
      rw [hs] at hb
      exact hb

theorem begin_good (L : Lasting H log s.awsRegion) (h : Earned (H log) sc) (t : Task)
    (hw : sc.worker = some (.begun t)) :
    Good H stack log sc (begin_ s sc w t) := by
  obtain ⟨hs, hn⟩ := h.worker _ hw
  cases t with
  | refreshDeps => exact refreshDeps_good w L h hs.symm DEPS true
  | verify => exact verify_good w L h hs.symm
  | runPlan => exact waits_good L h hs rfl
  | runApply =>
    refine @good_of_ran H stack log sc s L [.terraformApply] _ _ _ rfl rfl
      (@Earned.waits H log sc h .apply hs hn) fun c hc => ?_
    cases List.mem_singleton.mp hc
    rw [← hs] at hn
    exact hn
  | seed => exact seed_good w L h hs.symm
  | refreshCluster => exact refreshCluster_good w L h hs.symm
  | deploy => exact deploy_good w L h hs.symm

theorem exited_good (L : Lasting H log s.awsRegion) (h : Earned (H log) sc) {success : Went}
    (hg : Good H stack log sc success)
    (exit : Option Int) : Good H stack log sc (sc.exited s exit success) := by
  unfold Screen.exited
  split
  · exact hg
  · exact ends_good L h false
  · exact ends_good L h true

/-- A gate in the middle of a worker. -/
theorem midway_good (L : Lasting H log s.awsRegion) {screen : Screen} {g : Gate}
    (hq : Quiet s.awsRegion [.passed g s.awsRegion])
    (hid : screen.id = sc.id) (hstep : screen.step = sc.step)
    (he : Earned (H (log ++ [.passed g s.awsRegion])) screen) :
    Good H stack log sc ⟨screen, s, [.passed g s.awsRegion], false⟩ :=
  ⟨hid, hstep, he, fun _ _ _ h => h.grow L hq,
    commands_first L [] (fun c hm => by cases List.mem_singleton.mp hm) fun _ hm => by cases hm⟩

theorem resume_good (L : Lasting H log s.awsRegion) (h : Earned (H log) sc) {job : Job} (hw : sc.worker = some job)
    (hv : ∀ region, job = .identity region →
      Good H stack log sc (sc.passes .verified { s with awsRegion := region })) :
    Good H stack log sc (resume room s sc w job) := by
  obtain ⟨hs, hn⟩ := h.worker _ hw
  have hq : ∀ g, g ≠ .verified → Quiet s.awsRegion [.passed g s.awsRegion] := by
    intro g hg g' r hm
    cases List.mem_singleton.mp hm
    exact ⟨hg, rfl⟩
  cases job with
  | begun t => exact begin_good w L h t hw
  | probe dep left ok => exact refreshDeps_good w L h hs.symm left _
  | ssoLogin region => exact exited_good L h (@waits_good H stack log sc s L h (.identity region) hs rfl) _
  | identity region => exact exited_good L h (verified_good room w L h region (hv region rfl)) _
  | init => exact exited_good L h (@waits_good H stack log sc s L h .plan hs rfl) _
  | plan =>
    have he := h.grow L (hq .planned (by decide))
    refine exited_good L h (@midway_good H stack log sc s L
      { sc with worker := none, applyEnabled := true } .planned (hq _ (by decide)) rfl rfl
      ⟨he.before, he.next, fun _ => ⟨hs.symm, ?_⟩, fun _ hw => ?_⟩) _
    · exact L.pass [] (fun _ _ hm => by cases hm) (by decide) h.before
    · cases hw
  | apply =>
    have he := h.grow L (hq .applied (by decide))
    refine exited_good L h (@midway_good H stack log sc s L { sc with worker := some .outputs } .applied
      (hq _ (by decide)) rfl rfl
      ⟨he.before, he.next, he.apply, fun _ hw => ?_⟩) _
    cases hw
    have hp := @L.pass [] _ .applied (fun _ _ hm => by cases hm) (by decide) hn
    rw [List.append_assoc] at hp
    exact ⟨hs, hp⟩
  | outputs =>
    show Good H stack log sc (match w.exit with | some rc => captureOutputs room s sc w rc | none => sc.crash s)
    split
    · exact captureOutputs_good room w L h hs.symm hn _
    · exact ends_good L h true
  | deploySh =>
    exact exited_good L h (@passes_good H stack log sc s L h .deployed { s with deploySucceeded := true }
      (by rw [← hs]; rfl) (by decide) rfl) _

theorem save_good (L : Lasting H log s.awsRegion) (h : Earned (H log) sc) (hs : sc.step = .tfvars) :
    Good H stack log sc (save P s sc w) := by
  unfold save
  split
  · exact silent_good L rfl rfl h
  split
  · exact silent_good L rfl rfl h
  · exact gate_good L h [] (by rw [hs]; rfl) (by decide) (fun _ hm => by cases hm) sc.worker (Or.inr rfl)

end Good

/-! ## Runs -/

structure Inv (H : List Entry → List Gate → Prop) (app : App) : Prop where
  screens : ∀ sc ∈ app.stack, Earned (H app.log) sc
  commands : InTurn H app.log

section Runs

variable {H : List Entry → List Gate → Prop} {P : Tfvars.CPython} {room : Nat} {app : App}

theorem went_inv (h : Inv H app) {sc : Screen} {r : Went} (hg : Good H app.stack app.log sc r) :
    Inv H (app.went r) where
  screens := by
    intro sc' hm
    obtain ⟨sc₀, hm₀, rfl⟩ := List.mem_map.mp hm
    split
    · exact hg.earned
    · rename_i hid
      exact hg.others sc₀ hm₀ (hg.id ▸ hid) (h.screens sc₀ hm₀)
  commands := h.commands.append hg.commands

/-- A screen on top whose step is due. -/
theorem push_inv (h : Inv H app) {t : Step} (ht : H app.log t.before) : Inv H (app.push t) where
  screens := by
    intro sc hm
    rcases List.mem_cons.mp hm with rfl | hm
    · refine ⟨ht, fun hn => (by cases hn), fun ha => (by cases ha), fun job hw => ?_⟩
      cases t with
      | deps | cluster =>
        cases hw
        refine ⟨rfl, ?_⟩
        show H app.log (_ ++ [])
        rw [List.append_nil]
        exact ht
      | auth | tfvars | apply | secrets | deploy | status => cases hw
    · exact h.screens sc hm
  commands := h.commands

theorem runWorker_inv (L : Lasting H app.log app.state.awsRegion) (h : Inv H app) {sc : Screen}
    (hm : sc ∈ app.stack) {t : Task}
    (ht : t.step = sc.step) (hn : H app.log (sc.step.before ++ (Job.begun t).needs)) : Inv H (app.runWorker sc t) :=
  went_inv h (silent_good L rfl rfl ((h.screens sc hm).waits ht hn))

/-- What its keys and buttons do belongs to a screen. -/
def Action.fits (t : Step) : Action → Prop
  | .run task => task.step = t ∧ task ≠ .runApply
  | .doApply => t = .apply
  | .save => t = .tfvars
  | _ => True

theorem binding_fits {t : Step} {k : Key} {a : Action} (h : (t.binding k).or (appBinding k) = some a) : a.fits t := by
  cases t <;> cases k <;> cases h <;> trivial

theorem button_fits {t : Step} {b : Button} {a : Action} (h : (t.button b).or none = some a) : a.fits t := by
  cases t <;> cases b <;> cases h <;> trivial

theorem act_inv (L : Lasting H app.log app.state.awsRegion) (hnil : H app.log []) (h : Inv H app) {sc : Screen}
    (hm : sc ∈ app.stack) (w : World) {a : Action} (ha : a.fits sc.step) : Inv H (app.act P w sc a) := by
  have he := h.screens sc hm
  cases a with
  | quit => exact ⟨h.screens, h.commands⟩
  | nextStep => exact push_inv h hnil
  | popScreen => exact ⟨fun sc' hm' => h.screens sc' (List.mem_of_mem_drop hm'), h.commands⟩
  | advance =>
    simp only [App.act]
    split
    · rename_i hn
      cases hf : sc.step.following with
      | none => exact h
      | some t => exact push_inv h (by rw [before_following hf]; exact he.next hn)
    · exact h
  | doApply =>
    simp only [App.act]
    split
    · rename_i hn
      exact @runWorker_inv H app L h sc hm .runApply ha.symm (he.apply hn).2
    · exact h
  | save => exact went_inv h (save_good P w L he ha)
  | run t =>
    obtain ⟨ht, hne⟩ := ha
    have hn : (Job.begun t).needs = [] := by
      cases t with
      | runApply => exact absurd rfl hne
      | refreshDeps | verify | runPlan | seed | refreshCluster | deploy => rfl
    exact runWorker_inv L h hm ht (by rw [hn, List.append_nil]; exact he.before)

theorem perform_inv (L : Lasting H app.log app.state.awsRegion) (hnil : H app.log []) (h : Inv H app) (w : World)
    {onScreen : Step → Option Action} {onApp : Option Action}
    (hf : ∀ t a, (onScreen t).or onApp = some a → a.fits t) :
    Inv H (app.perform P w onScreen onApp) := by
  unfold App.perform
  split
  · rename_i sc rest hstack
    have hm : sc ∈ app.stack := by rw [hstack]; exact List.mem_cons_self
    split
    · exact act_inv L hnil h hm w (hf _ _ ‹_›)
    · exact h
  · split
    · exact ⟨h.screens, h.commands⟩
    · exact push_inv h hnil
    · exact h

/-- Where a verification keeps what the screens have, a step does. -/
theorem step_inv (L : Lasting H app.log app.state.awsRegion) (hnil : H app.log []) (h : Inv H app) (e : Event)
    (hv : ∀ id w sc region, e = .work id w → app.stack.find? (·.id == id) = some sc →
      sc.worker = some (.identity region) →
      Good H app.stack app.log sc (sc.passes .verified { app.state with awsRegion := region })) :
    Inv H (app.step P room e) := by
  unfold App.step
  split
  · exact h
  cases e with
  | key k w => exact perform_inv L hnil h w fun _ _ => binding_fits
  | click b w => exact perform_inv L hnil h w fun _ _ => button_fits
  | work id w =>
    simp only []
    split
    · rename_i sc hfind
      split
      · rename_i job hw
        refine went_inv h (resume_good room w L (h.screens sc (List.mem_of_find?_eq_some hfind)) hw
          fun region hj => ?_)
        exact hv id w sc region rfl hfind (hj ▸ hw)
      · exact h
    · exact h

theorem first_inv : Inv H {} := ⟨fun _ hm => (by cases hm), fun pre c post he => by cases pre <;> cases he⟩

/-- That the gates were passed, in their order. -/
def InOrder (log : List Entry) (gs : List Gate) : Prop := gs.Sublist (gates log)

theorem inOrder_grow {log : List Entry} {xs : List Gate} (h : InOrder log xs) (es : List Entry) :
    InOrder (log ++ es) xs := by
  have hsub := h.trans (List.sublist_append_left (gates log) (gates es))
  unfold gates at hsub
  rwa [← List.filterMap_append] at hsub

theorem inOrder_pass {log : List Entry} {xs : List Gate} (h : InOrder log xs) (es : List Entry) (g : Gate)
    (region : String) :
    InOrder (log ++ (es ++ [.passed g region])) (xs ++ [g]) := by
  have hsub := (inOrder_grow h es).append (List.Sublist.refl (gates [.passed g region]))
  unfold gates at hsub
  rwa [← List.filterMap_append, List.append_assoc] at hsub

theorem inOrder_lasting (log : List Entry) (region : String) : Lasting InOrder log region :=
  ⟨fun _ h => inOrder_grow h _, fun es _ g _ _ h => inOrder_pass h es g region⟩

theorem verified_inOrder {stack : List Screen} {log : List Entry} {sc : Screen} {s : WizardState} {region : String}
    (h : Earned (InOrder log) sc) (hw : sc.worker = some (.identity region)) :
    Good InOrder stack log sc (sc.passes .verified { s with awsRegion := region }) := by
  have hs : Step.auth = sc.step := (h.worker _ hw).1
  have hgrow : ∀ {sc'}, Earned (InOrder log) sc' → Earned (InOrder (log ++ [.passed .verified region])) sc' :=
    fun h => h.mono fun h => inOrder_grow h _
  refine ⟨rfl, rfl, ⟨(hgrow h).before, fun _ => ?_, (hgrow h).apply, fun _ hj => ?_⟩, fun _ _ _ => hgrow,
    fun pre c post hp => ?_⟩
  · show InOrder _ (sc.step.before ++ sc.step.own)
    have hb := h.before
    rw [← hs] at hb ⊢
    exact inOrder_pass hb [] .verified region
  · cases hj
  · exact absurd (hp ▸ List.mem_append_right pre List.mem_cons_self) (fun hm => by cases List.mem_singleton.mp hm)

theorem inOrder_step (h : Inv InOrder app) (e : Event) : Inv InOrder (app.step P room e) :=
  step_inv (inOrder_lasting _ _) (List.nil_sublist _) h e fun _ _ sc _ _ hfind hw =>
    verified_inOrder (h.screens sc (List.mem_of_find?_eq_some hfind)) hw

theorem run_inv (P : Tfvars.CPython) (room : Nat) (es : List Event) : Inv InOrder (App.run P room es) := by
  have hfold : ∀ app, Inv InOrder app → Inv InOrder (es.foldl (App.step P room) app) := by
    induction es with
    | nil => exact fun _ h => h
    | cons e es ih =>
      exact fun app h => ih _ (inOrder_step h e)
  exact hfold {} first_inv

/-- No step is reached, and no command that changes AWS is run, before its turn. -/
theorem steps_in_order (P : Tfvars.CPython) (room : Nat) (es : List Event) :
    (∀ sc ∈ (App.run P room es).stack, sc.step.before.Sublist (gates (App.run P room es).log)) ∧
    ∀ pre c post, (App.run P room es).log = pre ++ .ran c :: post → c.needs.Sublist (gates pre) :=
  ⟨fun sc hm => ((run_inv P room es).screens sc hm).before, (run_inv P room es).commands⟩

end Runs

/-! ## What the state holds -/

/-- What a log tells of the state: the names and the region. -/
structure Known extends Names where
  awsRegion : String := "us-east-1"
  deriving DecidableEq, Repr

def WizardState.known (s : WizardState) : Known := ⟨s.toNames, s.awsRegion⟩

def Known.note (k : Known) : Entry → Known
  | .captured names => { k with toNames := names }
  | .passed .verified region => { k with awsRegion := region }
  | _ => k

def Known.after (k : Known) (es : List Entry) : Known := es.foldl Known.note k

/-- A command is run with what is known. -/
def Command.Told (k : Known) : Command → Prop
  | .terraformApply => True
  | .putSecretValue _ region => region = k.awsRegion
  | .deploySh env =>
    env.awsRegion = k.awsRegion ∧
    (k.clusterName = some env.clusterName ∧ env.clusterName ≠ "") ∧
    (k.webServiceName = some env.webService ∧ env.webService ≠ "") ∧
    (k.workerServiceName = some env.workerService ∧ env.workerService ≠ "")

/-- A gate is passed in the region that is known then. -/
def Entry.Told (k : Known) : Entry → Prop
  | .passed _ region => region = k.awsRegion
  | .captured _ => True
  | .ran c => c.Told k

/-- Each entry fits what the ones before it tell; a verification what it tells itself. -/
def Told (k : Known) : List Entry → Prop
  | [] => True
  | .ran c :: es => c.Told k ∧ Told k es
  | e :: es => e.Told (k.note e) ∧ Told (k.note e) es

theorem after_append (k : Known) (xs ys : List Entry) : k.after (xs ++ ys) = (k.after xs).after ys :=
  List.foldl_append

section Traced

variable {s : WizardState} {sc : Screen} (P : Tfvars.CPython) (room : Nat) (w : World)

end Traced

section Runs

variable {P : Tfvars.CPython} {room : Nat} {app : App}

end Runs

/-! ## One region -/

/-- How far a step is. -/
def Step.index (t : Step) : Nat := t.before.length

def Screen.verifying (sc : Screen) : Bool :=
  match sc.worker with
  | some (.identity _) => true
  | _ => false

/-- `n` does not start the wizard over on top of itself, and a verification ends under its own screen. -/
def App.Calm (app : App) : Event → Prop
  | .key k _ => k = .n → ∀ sc ∈ app.stack.head?, sc.step.binding .n ≠ none
  | .click _ _ => True
  | .work id _ => ∀ sc ∈ app.stack.find? (·.id == id), sc.verifying = true → app.stack.head? = some sc

instance (app : App) (e : Event) : Decidable (app.Calm e) :=
  match e with
  | .key k _ => inferInstanceAs (Decidable (k = .n → ∀ sc ∈ app.stack.head?, sc.step.binding .n ≠ none))
  | .click _ _ => .isTrue trivial
  | .work id _ =>
    inferInstanceAs (Decidable (∀ sc ∈ app.stack.find? (·.id == id), sc.verifying = true → app.stack.head? = some sc))

def App.Calmly (P : Tfvars.CPython) (room : Nat) (app : App) : List Event → Prop
  | [] => True
  | e :: es => app.Calm e ∧ (app.step P room e).Calmly P room es

def App.decideCalmly (P : Tfvars.CPython) (room : Nat) : (es : List Event) → (app : App) →
    Decidable (app.Calmly P room es)
  | [], _ => .isTrue trivial
  | e :: es, app => @instDecidableAnd _ _ inferInstance (decideCalmly P room es (app.step P room e))

instance (P : Tfvars.CPython) (room : Nat) (es : List Event) (app : App) : Decidable (app.Calmly P room es) :=
  App.decideCalmly P room es app

/-- The screens stand in the order of the steps. -/
structure Stacked (app : App) : Prop where
  fresh : ∀ sc ∈ app.stack, sc.id < app.next
  sorted : app.stack.Pairwise fun upper lower => lower.id < upper.id ∧ lower.step.index < upper.step.index

section Calm

variable {P : Tfvars.CPython} {room : Nat} {app : App}

/-- Two screens of one id are one screen. -/
theorem Stacked.unique (h : Stacked app) {sc sc' : Screen} (hm : sc ∈ app.stack) (hm' : sc' ∈ app.stack)
    (hid : sc.id = sc'.id) :
    sc = sc' := by
  have hnodup : (app.stack.map Screen.id).Nodup := List.pairwise_map.mpr (h.sorted.imp fun hab => Nat.ne_of_gt hab.1)
  exact List.inj_on_of_nodup_map hnodup hm hm' hid

end Calm

end Connect.Bootstrap
