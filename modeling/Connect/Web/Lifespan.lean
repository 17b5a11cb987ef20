/-
  Connect.Web.Lifespan — the life of the web processes of a deployment: _startup, _shutdown
  (main.py), graceful_lifespan (services/shutdown.py), the readiness probe and the draining
  flag (routes/health.py), JobQueue.start and stop, ensure_jwt_secret_valid and
  ensure_admin_exists on the users table they share.

  A web process is a task `lifespan`, named by its number; probes, signals and requests are
  tasks of the process they reach, once it serves. What the parts of a process are connected
  to (the database, Valkey, AWS) answers as it pleases, and a `sleep` ends no sooner than it
  should. When the server leaves the `yield` (uvicorn, which a signal is passed on to) is
  left open, and so is when it stops taking requests.
-/

import Connect.Auth.Routes
import Connect.Await.Lift

namespace Connect.Web.Lifespan

open Await Auth

/-- What `_shutdown` closes. -/
inductive Part where
  | engine
  | redisPool
  | pubsub
  | subscriber
  | sampler
  deriving DecidableEq, Repr

/-- What `/ready` asks. -/
inductive Check where
  | postgres
  | valkey
  | aws
  deriving DecidableEq, Repr

def Check.name : Check → String
  | .postgres => "postgres"
  | .valkey => "valkey"
  | .aws => "aws"

inductive LifeOp where
  | has (p : Nat) (part : Part)
  | connect (p : Nat) (part : Part)
  | subscribe (p : Nat)
  /-- `self._redis_pool = None`. -/
  | forget (p : Nat) (part : Part)
  | close (p : Nat) (part : Part)
  | addSignalHandlers (p : Nat)
  /-- The startup is complete, and requests come. -/
  | serve (p : Nat)
  /-- The `yield`. -/
  | awaitExit (p : Nat)
  | isSet (p : Nat)
  | time
  /-- `asyncio.sleep`, up to this time. -/
  | sleep (wake : Int)
  /-- `_on_sigterm`. -/
  | onSigterm (p : Nat)
  | isDraining (p : Nat)
  | makeRedisClient
  | check (c : Check)
  | aclose
  deriving DecidableEq, Repr

def LifeOp.Ret : LifeOp → Type
  | .has _ _ | .isSet _ | .isDraining _ => Bool
  | .time => Int
  | _ => Unit

abbrev lifeSig : Sig := ⟨LifeOp, LifeOp.Ret⟩

abbrev webSig : Sig := lifeSig.sum authSig

abbrev WebProg := Prog webSig Exc

def perform (o : LifeOp) : WebProg o.Ret := @Prog.left lifeSig authSig Exc o

def has (p : Nat) (part : Part) : WebProg Bool := perform (.has p part)
def isSet (p : Nat) : WebProg Bool := perform (.isSet p)
def loopTime : WebProg Int := perform .time
def isDraining (p : Nat) : WebProg Bool := perform (.isDraining p)
def addSignalHandlers (p : Nat) : WebProg Unit := perform (.addSignalHandlers p)
def serve (p : Nat) : WebProg Unit := perform (.serve p)
def awaitExit (p : Nat) : WebProg Unit := perform (.awaitExit p)

/-- `try: p  except Exception: h`. -/
def swallowing (p h : WebProg Unit) : WebProg Unit := p.catching fun e => if e.isException then h else .raise e

/-- The environment of a process, as `_startup` and `graceful_lifespan` read it. -/
structure Env where
  jwtSecretKey : String
  domain : String
  environment : String
  /-- `int(os.environ.get("GRACEFUL_DRAIN_SECONDS", "30"))`, when that is a number. -/
  gracefulDrainSeconds : Option Int

/-! ## Startup -/

def weakSecrets : List String :=
  ["dev-secret-key-change-in-production", "change-me-in-production", "secret", "jwt-secret", "your-secret-key"]

def validateJwtSecret (cfg : AuthConfig) (env : Env) : Option String :=
  if env.jwtSecretKey = "" then some "JWT_SECRET_KEY environment variable is not set"
  else if weakSecrets.contains (cfg.lower env.jwtSecretKey) ||
    env.jwtSecretKey == "dev-secret-key-change-in-production" then
    some "JWT_SECRET_KEY is using a known default value - generate with: openssl rand -hex 32"
  else if env.jwtSecretKey.length < 32 then
    some "JWT_SECRET_KEY is too short - should be at least 32 characters (recommend 64 hex chars)"
  else none

def isProduction (cfg : AuthConfig) (env : Env) : Bool :=
  env.domain != "" || cfg.lower env.environment == "production"

def ensureJwtSecretValid (cfg : AuthConfig) (env : Env) : WebProg Unit :=
  match validateJwtSecret cfg env with
  | some error => if isProduction cfg env then .raise (.exception ("SECURITY ERROR: " ++ error)) else .ret ()
  | none => .ret ()

/-- `_pubsub` is set before the subscription. -/
def startLogSubscriber (p : Nat) : WebProg Unit :=
  swallowing (do
    let _ ← perform .makeRedisClient
    let _ ← perform (.connect p .pubsub)
    let _ ← perform (.subscribe p)
    perform (.connect p .subscriber)) (.ret ())

def startJobQueue (p : Nat) : WebProg Unit :=
  swallowing (do
    let _ ← perform (.connect p .redisPool)
    startLogSubscriber p) (perform (.forget p .redisPool))

def startMetricsSampler (p : Nat) : WebProg Unit := do
  let running ← has p .sampler
  if running = true then return ()
  else swallowing (do
    let _ ← perform .makeRedisClient
    perform (.connect p .sampler)) (.ret ())

/-- `get_engine`, on its first call the engine is made. -/
def getEngine (p : Nat) : WebProg Unit := do
  let made ← has p .engine
  if made = true then return () else perform (.connect p .engine)

def startup (cfg : AuthConfig) (env : Env) (p : Nat) : WebProg Unit := do
  let _ ← ensureJwtSecretValid cfg env
  let _ ← getEngine p
  let _ ← (ensureAdminExists cfg).lift
  let _ ← startJobQueue p
  let _ ← swallowing (getEngine p) (.ret ())
  startMetricsSampler p

/-! ## Shutdown -/

def closeIf (p : Nat) (part : Part) (closing : WebProg Unit) : WebProg Unit := do
  let present ← has p part
  if present = true then closing else return ()

/-- The task is forgotten before it is cancelled, and whatever it ends with is swallowed. -/
def stopMetricsSampler (p : Nat) : WebProg Unit :=
  closeIf p .sampler ((perform (.close p .sampler)).catching fun _ => .ret ())

/-- A subscriber that ends as cancelled is what was asked for. -/
def stopJobQueue (p : Nat) : WebProg Unit := do
  let _ ← closeIf p .subscriber ((perform (.close p .subscriber)).catching
    fun e => if e = .cancelled then .ret () else .raise e)
  let _ ← closeIf p .pubsub (perform (.close p .pubsub))
  closeIf p .redisPool (perform (.close p .redisPool))

def shutdownEngine (p : Nat) : WebProg Unit := closeIf p .engine (perform (.close p .engine))

def shutdown (p : Nat) : WebProg Unit := do
  let _ ← stopMetricsSampler p
  let _ ← stopJobQueue p
  shutdownEngine p

/-! ## Lifespan -/

/-- A second of the clock, which counts microseconds. -/
def second : Int := 1000000

/-- The `finally` of `graceful_lifespan`. -/
def drain (p : Nat) (drainSeconds : Int) : WebProg Unit := do
  let signalled ← isSet p
  if signalled = true then do
    let now ← loopTime
    let _ ← perform (.sleep (now + drainSeconds * second))
    shutdown p
  else shutdown p

def lifespan (cfg : AuthConfig) (env : Env) (p : Nat) : WebProg Unit := do
  let _ ← startup cfg env p
  match env.gracefulDrainSeconds with
  | none => .raise (.exception "invalid literal for int() with base 10")
  | some drainSeconds => do
    let _ ← addSignalHandlers p
    ((serve p).bind fun _ => awaitExit p).finally_ (drain p drainSeconds)

/-! ## Readiness -/

/-- The answer of `/ready`; `checks` are in the body when one of them is not ok. -/
structure Readiness where
  statusCode : Nat
  status : String
  checks : List (String × String)
  deriving DecidableEq, Repr

def draining : Readiness := ⟨503, "draining", []⟩

/-- `checks[name] = "ok"`, or the text of the exception. -/
def probe (c : Check) (p : WebProg Unit) : WebProg (String × String) := do
  match ← p.attempt with
  | .ok () => return (c.name, "ok")
  | .error e => if e.isException then return (c.name, e.text) else .raise e

def probeValkey : WebProg (String × String) := do
  match ← (perform .makeRedisClient).attempt with
  | .ok () => (probe .valkey (perform (.check .valkey))).finally_ (perform .aclose)
  | .error e => if e.isException then return (Check.valkey.name, e.text) else .raise e

def readiness (p : Nat) : WebProg Readiness := do
  let shuttingDown ← isDraining p
  if shuttingDown = true then return draining
  else do
    let postgres ← probe .postgres (do
      let _ ← getEngine p
      perform (.check .postgres))
    let valkey ← probeValkey
    let aws ← probe .aws (perform (.check .aws))
    let checks := [postgres, valkey, aws]
    if checks.all (·.2 = "ok") then return ⟨200, "ok", []⟩ else return ⟨503, "not_ready", checks⟩

/-! ## The system -/

structure Process where
  /-- The references that are not None. -/
  parts : Part → Bool
  handlers : Bool
  serving : Bool
  shutdownEvent : Bool
  /-- `_shutting_down`. -/
  draining : Bool

structure Fleet where
  db : AuthDb
  processes : Nat → Process

def Process.new : Process := ⟨fun _ => false, false, false, false, false⟩

def Process.setPart (s : Process) (part : Part) (b : Bool) : Process :=
  { s with parts := fun q => if q = part then b else s.parts q }

def Fleet.put (s : Fleet) (p : Nat) (f : Process → Process) :
    Fleet := { s with processes := upd s.processes p (f (s.processes p)) }

@[simp] theorem processes_put (s : Fleet) (p : Nat) (f : Process → Process) :
    (s.put p f).processes p = f (s.processes p) :=
  upd_same _ _ _

@[simp] theorem processes_put_ne (s : Fleet) {p q : Nat} (f : Process → Process) (h : q ≠ p) :
    (s.put p f).processes q = s.processes q :=
  upd_ne _ _ h

/-- Operations that may raise: those that wait, and those that call out. -/
def LifeOp.mayRaise : LifeOp → Bool
  | .connect _ _ | .subscribe _ | .close _ _ | .awaitExit _ | .sleep _ | .makeRedisClient | .check _ | .aclose => true
  | _ => false

/-- Whether a reference is kept when closing it raised: the sampler's is gone before, and a
    subscriber is to end as cancelled. -/
def keptBy (part : Part) (e : Exc) : Bool := part != .sampler && !(part == .subscriber && e == .cancelled)

def Fleet.exec (s : Fleet) : (o : LifeOp) → Except Exc o.Ret → Option Fleet
  | .close p part, .error e => some (s.put p (·.setPart part (keptBy part e)))
  | o, .error _ => if o.mayRaise then some s else none
  | .has p part, .ok (b : Bool) => if b = (s.processes p).parts part then some s else none
  | .connect p part, .ok _ => some (s.put p (·.setPart part true))
  | .forget p part, .ok _ => some (s.put p (·.setPart part false))
  | .close p part, .ok _ => some (s.put p (·.setPart part false))
  | .addSignalHandlers p, .ok _ => some (s.put p fun st => { st with handlers := true })
  | .serve p, .ok _ => some (s.put p fun st => { st with serving := true })
  | .isSet p, .ok (b : Bool) => if b = (s.processes p).shutdownEvent then some s else none
  | .time, .ok (t : Int) => if t = s.db.now then some s else none
  | .sleep t, .ok _ => if t ≤ s.db.now then some s else none
  | .onSigterm p, .ok _ => some (s.put p fun st => { st with draining := true, shutdownEvent := true })
  | .isDraining p, .ok (b : Bool) => if b = (s.processes p).draining then some s else none
  | .awaitExit _, .ok _ | .subscribe _, .ok _ | .makeRedisClient, .ok _ | .check _, .ok _ | .aclose, .ok _ => some s

inductive Task where
  | lifespan (env : Env)
  | ready (p : Nat)
  | signal (p : Nat)
  | request (p : Nat) (request : Request)

inductive Answer where
  | stopped
  | ready (readiness : Readiness)
  | signalled
  | replied (reply : Reply)

/-- The web processes of a deployment, from tables with no user; all are given one ADMIN_EMAIL and ADMIN_PASSWORD. -/
def webSystem (cfg : AuthConfig) : System webSig Exc Answer where
  State := Fleet
  Env := Nat
  Task := Task
  init := fun s => (∀ i, s.db.users i = none) ∧ ∀ p, s.processes p = Process.new
  exec
    | _, s, .inl o, r => s.exec o r
    | _, s, .inr o, r => (s.db.exec cfg.verify o r).map fun db => { s with db }
  env := fun s microseconds => some { s with db := { s.db with now := s.db.now + microseconds } }
  starts
    | _, .lifespan _ => true
    | s, .ready p => (s.processes p).serving
    | s, .signal p => (s.processes p).handlers
    | s, .request p _ => (s.processes p).serving
  code
    | pid, .lifespan env => (fun _ => .stopped) <$> lifespan cfg env pid
    | _, .ready p => .ready <$> readiness p
    | _, .signal p => (fun _ => .signalled) <$> perform (.onSigterm p)
    | _, .request _ request => .replied <$> (request.code cfg).lift

/-! ## What starting and probing do -/

/-- Operations that neither open the process to requests nor take it down. -/
def LifeOp.quiet : LifeOp → Bool
  | .has _ _ | .connect _ _ | .subscribe _ | .forget _ _ | .addSignalHandlers _
  | .isDraining _ | .makeRedisClient | .check _
  | .aclose => true
  | _ => false

section Uses

variable {P : webSig.Op → Prop} (hq : ∀ o : LifeOp, o.quiet = true → P (.inl o)) (p : Nat)

theorem uses_perform {o : LifeOp} (h : P (.inl o)) : (perform o).Uses P := .await h

theorem uses_swallowing {q h : WebProg Unit} (hp : q.Uses P) (hh : h.Uses P) : (swallowing q h).Uses P := by
  refine .catching hp fun e => ?_
  split
  · exact hh
  · trivial

theorem uses_probe (c : Check) {q : WebProg Unit} (h : q.Uses P) : (probe c q).Uses P := by
  refine .bind (.attempt h) fun x => ?_
  cases x with
  | ok a => trivial
  | error e =>
    dsimp only
    split <;> trivial

theorem uses_shutdown (hhas : ∀ part, P (.inl (.has p part))) (hclose : ∀ part, P (.inl (.close p part))) :
    (shutdown p).Uses P := by
  have hif : ∀ (part : Part) {closing : WebProg Unit}, closing.Uses P → (closeIf p part closing).Uses P := by
    intro part closing h
    refine .bind (uses_perform (hhas part)) fun (present : Bool) => ?_
    cases present with
    | true => exact h
    | false => trivial
  have hclosing : ∀ part, (perform (.close p part)).Uses P := fun part => uses_perform (hclose part)
  have hsubscriber : ((perform (.close p .subscriber)).catching fun e => if e = .cancelled then .ret ()
      else .raise e : WebProg Unit).Uses P := by
    refine .catching (hclosing _) fun e => ?_
    split <;> trivial
  refine .bind (hif _ (.catching (hclosing _) fun _ => trivial)) fun _ => .bind ?_ fun _ => hif _ (hclosing _)
  exact .bind (hif _ hsubscriber) fun _ => .bind (hif _ (hclosing _)) fun _ => hif _ (hclosing _)

include hq

theorem uses_getEngine : (getEngine p).Uses P := by
  refine .bind (uses_perform (hq _ rfl)) fun (made : Bool) => ?_
  cases made with
  | true => trivial
  | false => exact uses_perform (hq _ rfl)

theorem uses_startJobQueue : (startJobQueue p).Uses P := by
  refine uses_swallowing (.bind (uses_perform (hq _ rfl)) fun _ => ?_) (uses_perform (hq _ rfl))
  refine uses_swallowing (.bind (uses_perform (hq _ rfl)) fun _ => .bind (uses_perform (hq _ rfl))
    fun _ => ?_) trivial
  exact .bind (uses_perform (hq _ rfl)) fun _ => uses_perform (hq _ rfl)

theorem uses_startMetricsSampler : (startMetricsSampler p).Uses P := by
  refine .bind (uses_perform (hq _ rfl)) fun (running : Bool) => ?_
  cases running with
  | true => trivial
  | false => exact uses_swallowing (.bind (uses_perform (hq _ rfl)) fun _ => uses_perform (hq _ rfl)) trivial

theorem uses_probeValkey : probeValkey.Uses P := by
  refine .bind (.attempt (uses_perform (hq _ rfl))) fun x => ?_
  cases x with
  | ok a => exact .finally_ (uses_probe _ (uses_perform (hq _ rfl))) (uses_perform (hq _ rfl))
  | error e =>
    dsimp only
    split <;> trivial

theorem uses_readiness : (readiness p).Uses P := by
  refine .bind (uses_perform (hq _ rfl)) fun (shuttingDown : Bool) => ?_
  cases shuttingDown with
  | true => trivial
  | false =>
    refine .bind (uses_probe _ (.bind (uses_getEngine hq p) fun _ => uses_perform (hq _ rfl))) fun postgres => ?_
    refine .bind (uses_probeValkey hq) fun valkey => .bind (uses_probe _ (uses_perform (hq _ rfl))) fun aws => ?_
    dsimp only
    split <;> trivial

end Uses

/-! ## What an operation of a process does -/

/-- The tables stay, only `serve` opens a process to requests, and a flag once set stays set. -/
structure Lived (s : Fleet) (o : LifeOp) (s' : Fleet) : Prop where
  db : s'.db = s.db
  opened : ∀ p, (s'.processes p).serving = true → (s.processes p).serving = true ∨ o = .serve p
  serving : ∀ p, (s.processes p).serving = true → (s'.processes p).serving = true
  draining : ∀ p, (s.processes p).draining = true → (s'.processes p).draining = true
  shutdownEvent : ∀ p, (s.processes p).shutdownEvent = true → (s'.processes p).shutdownEvent = true

theorem lived_same (s : Fleet) (o : LifeOp) : Lived s o s :=
  ⟨rfl, fun _ h => .inl h, fun _ h => h, fun _ h => h, fun _ h => h⟩

theorem put_rel (R : Process → Process → Prop) (hid : ∀ st, R st st) (s : Fleet) (p : Nat) {f : Process → Process}
    (hf : ∀ st, R st (f st)) (q : Nat) : R (s.processes q) ((s.put p f).processes q) := by
  by_cases hq : q = p
  · subst hq
    rw [processes_put]
    exact hf _
  · rw [processes_put_ne _ _ hq]
    exact hid _

theorem lived_put (s : Fleet) (o : LifeOp) (p : Nat) {f : Process → Process}
    (hs : ∀ st, (f st).serving = st.serving ∨ o = .serve p)
    (hon : ∀ st, st.serving = true → (f st).serving = true) (hd : ∀ st, st.draining = true → (f st).draining = true)
    (he : ∀ st, st.shutdownEvent = true → (f st).shutdownEvent = true) : Lived s o (s.put p f) where
  db := rfl
  opened q hq := by
    by_cases hqp : q = p
    · subst hqp
      rcases hs (s.processes q) with h | h
      · rw [processes_put, h] at hq
        exact .inl hq
      · exact .inr h
    · rw [processes_put_ne _ _ hqp] at hq
      exact .inl hq
  serving := put_rel (fun st st' => st.serving = true → st'.serving = true) (fun _ h => h) s p hon
  draining := put_rel (fun st st' => st.draining = true → st'.draining = true) (fun _ h => h) s p hd
  shutdownEvent := put_rel (fun st st' => st.shutdownEvent = true → st'.shutdownEvent = true) (fun _ h => h) s p he

/-- An update of a process that leaves the three flags alone. -/
theorem lived_flags (s : Fleet) (o : LifeOp) (p : Nat) {f : Process → Process}
    (h : ∀ st, (f st).serving = st.serving ∧ (f st).draining = st.draining ∧
      (f st).shutdownEvent = st.shutdownEvent) :
    Lived s o (s.put p f) :=
  lived_put s o p (fun st => .inl (h st).1) (fun st hs => (h st).1.trans hs) (fun st hd => (h st).2.1.trans hd)
    fun st he => (h st).2.2.trans he

theorem exec_lived {s s' : Fleet} {o : LifeOp} {r : Except Exc o.Ret} (h : s.exec o r = some s') : Lived s o s' := by
  have hsame : ∀ {b : Prop} {d : Decidable b}, @ite _ b d (some s) none = some s' → Lived s o s' := by
    intro b _ hb
    split at hb
    · cases hb
      exact lived_same s o
    · cases hb
  cases r with
  | error e =>
    cases o with
    | close p part => cases h; exact lived_flags s _ p fun _ => ⟨rfl, rfl, rfl⟩
    | _ => simp [Fleet.exec, LifeOp.mayRaise] at h <;> exact h ▸ lived_same s _
  | ok a =>
    cases o with
    | connect p part => cases h; exact lived_flags s _ p fun _ => ⟨rfl, rfl, rfl⟩
    | forget p part => cases h; exact lived_flags s _ p fun _ => ⟨rfl, rfl, rfl⟩
    | close p part => cases h; exact lived_flags s _ p fun _ => ⟨rfl, rfl, rfl⟩
    | addSignalHandlers p => cases h; exact lived_flags s _ p fun _ => ⟨rfl, rfl, rfl⟩
    | onSigterm p => cases h; exact lived_put s _ p (fun _ => .inl rfl) (fun _ h => h) (fun _ _ => rfl) fun _ _ => rfl
    | serve p => cases h; exact lived_put s _ p (fun _ => .inr rfl) (fun _ _ => rfl) (fun _ h => h) fun _ h => h
    | has p part => exact hsame h
    | isSet p => exact hsame h
    | time => exact hsame h
    | sleep t => exact hsame h
    | isDraining p => exact hsame h
    | _ => cases h; exact lived_same s _

theorem exec_sleep {s s' : Fleet} {t : Int} {a : Unit} (h : s.exec (.sleep t) (.ok a) = some s') :
    t ≤ s.db.now ∧ s = s' := by
  simpa only [Fleet.exec, Option.ite_none_right_eq_some, Option.some.injEq] using h

theorem exec_isDraining {s s' : Fleet} {p : Nat} {b : Bool} (h : s.exec (.isDraining p) (.ok b) = some s') :
    b = (s.processes p).draining ∧ s = s' := by
  simpa only [Fleet.exec, Option.ite_none_right_eq_some, Option.some.injEq] using h

theorem exec_onSigterm {s s' : Fleet} {p : Nat} {r : Except Exc Unit} (h : s.exec (.onSigterm p) r = some s') :
    (s'.processes p).draining = true ∧ (s'.processes p).shutdownEvent = true := by
  cases r with
  | error e => cases h
  | ok a =>
    cases h
    simp

end Connect.Web.Lifespan
