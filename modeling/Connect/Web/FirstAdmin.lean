/-
  Connect.Web.FirstAdmin — whom the users table knows when a process begins to serve, over
  every interleaving of any number of processes that start on empty tables.

  Each start counts the users and inserts the admin when there is none. Between the two
  another start may have inserted him: then the address is taken, the insert raises and
  the process does not come up. So until the first process serves there is no other row
  (`Unopened`), and none begins to serve before there is a row (`Manned`). What requests do
  to the users afterwards is another matter.
-/

import Connect.Web.Lifespan
import Connect.Auth.StaleLogin

namespace Connect.Web.Lifespan

open Await Auth

/-! ## Before anybody serves -/

def Fleet.Open (s : Fleet) : Prop := ∃ p, (s.processes p).serving = true

/-- The user that ADMIN_EMAIL and ADMIN_PASSWORD name. -/
def TheAdmin (cfg : AuthConfig) (user : User) : Prop :=
  user.isAdmin = true ∧ user.email = cfg.adminEmail ∧ cfg.verify cfg.adminPassword user.passwordHash = true

/-- Nobody but the admin is there, if he is. -/
structure Unopened (cfg : AuthConfig) (db : AuthDb) : Prop where
  used : ∀ i user, db.users i = some user → i ∈ db.used
  admin : ∀ i user, db.users i = some user → TheAdmin cfg user
  one : ∀ i j user user', db.users i = some user → db.users j = some user' → i = j

variable {cfg : AuthConfig}

theorem addUser_self (db : AuthDb) (id : Uuid) (user : User) : (db.addUser id user).users id = some user :=
  put_same _ _ _

theorem addUser_ne (db : AuthDb) {id i : Uuid} (user : User) (h : i ≠ id) :
    (db.addUser id user).users i = db.users i :=
  put_ne _ _ h

theorem Unopened.insert {db : AuthDb} (h : Unopened cfg db) {id : Uuid} {hash : String} (hid : id ∉ db.used)
    (hfree : db.hasEmail cfg.adminEmail = false) (hhash : cfg.verify cfg.adminPassword hash = true) :
    Unopened cfg (db.addUser id (db.newUser cfg.adminEmail hash (some "Admin") true)) := by
  -- a row would be the admin's, and its address is not taken
  have hnone : ∀ i, db.users i = none := by
    intro i
    cases hu : db.users i with
    | none => rfl
    | some user =>
      have htaken : db.hasEmail cfg.adminEmail = true := by
        refine List.any_eq_true.mpr ⟨i, h.used i user hu, ?_⟩
        simp [hu, (h.admin i user hu).2.1]
      rw [htaken] at hfree
      cases hfree
  have hrow : ∀ i user, (db.addUser id (db.newUser cfg.adminEmail hash (some "Admin") true)).users i = some user →
      i = id ∧ user = db.newUser cfg.adminEmail hash (some "Admin") true := by
    intro i user hu
    by_cases hi : i = id
    · subst hi
      rw [addUser_self] at hu
      exact ⟨rfl, (Option.some.inj hu).symm⟩
    · rw [addUser_ne _ _ hi, hnone i] at hu
      cases hu
  refine ⟨fun i user hu => ?_, fun i user hu => ?_, fun i j user user' hu hu' => ?_⟩
  · rw [(hrow i user hu).1]
    exact List.mem_cons_self
  · rw [(hrow i user hu).2]
    exact ⟨rfl, rfl, hhash⟩
  · rw [(hrow i user hu).1, (hrow j user' hu').1]

/-! ## The law of the processes -/

variable (cfg) in
abbrev WebWorld := World (webSystem cfg)

/-- Requests come already, or there is a user. -/
def Manned (s : Fleet) : Prop := s.Open ∨ ∃ i user, s.db.users i = some user

/-- What another task may do: requests do not stop coming, and until they come no user goes. -/
structure Goes (s s' : Fleet) : Prop where
  opened : s.Open → s'.Open
  users : ¬ s'.Open → ∀ i user, s.db.users i = some user → s'.db.users i = some user

theorem Goes.refl (s : Fleet) : Goes s s := ⟨fun h => h, fun _ _ _ h => h⟩

theorem Goes.trans {a b c : Fleet} (h : Goes a b) (h' : Goes b c) : Goes a c :=
  ⟨fun ho => h'.opened (h.opened ho), fun hno i user hu => h'.users hno i user
    (h.users (fun hb => hno (h'.opened hb)) i user hu)⟩

theorem Goes.manned {s s' : Fleet} (h : Goes s s') (hm : Manned s) : Manned s' := by
  by_cases hopen : s'.Open
  · exact .inl hopen
  rcases hm with ho | ⟨i, user, hu⟩
  · exact .inl (h.opened ho)
  · exact .inr ⟨i, user, h.users hopen i user hu⟩

/-- A process in production has a secret that is accepted. -/
def Secure (cfg : AuthConfig) (env : Env) : Prop := isProduction cfg env = true → validateJwtSecret cfg env = none

/-- Who may begin to serve: a process whose secret is in order, once there is a user. -/
def MayServe (pid : Nat) (t : Task) (p : Nat) (s : Fleet) : Prop :=
  p = pid ∧ (∃ env, t = .lifespan env ∧ Secure cfg env) ∧ Manned s

/-- The tables are right until requests come, and nobody serves who may not. -/
structure Kept (cfg : AuthConfig) (pid : Nat) (t : Task) (w w' : WebWorld cfg) : Prop where
  unopened : ¬ w'.st.Open → Unopened cfg w'.st.db
  goes : Goes w.st w'.st
  serves : ∀ p r, w'.hist.head? = some ⟨pid, Sum.inl (.serve p), r⟩ → @MayServe cfg pid t p w.st

abbrev manLaw (cfg : AuthConfig) (pid : Nat) (t : Task) : Law (WebWorld cfg) webSig Exc :=
  (webSystem cfg).law (fun w => ¬ w.st.Open → Unopened cfg w.st.db) (fun _ w w' => Goes w.st w'.st)
    (fun pid => Kept cfg pid t) (fun _ _ _ _ => True) pid

variable {pid : Nat} {t : Task} {w w' : WebWorld cfg}

theorem act_life {o : LifeOp} {r : Except Exc o.Ret} (ha : (manLaw cfg pid t).act w (Sum.inl o) r w') :
    w.st.exec o r = some w'.st ∧ w'.hist = ⟨pid, Sum.inl o, r⟩ :: w.hist := by
  obtain ⟨_, s, hx, rfl⟩ := ha
  exact ⟨hx, rfl⟩

theorem act_auth {o : AuthOp} {r : Except Exc o.Ret} (ha : (manLaw cfg pid t).act w (Sum.inr o) r w') :
    Did cfg.verify w.st.db o r w'.st.db ∧ w'.st.processes = w.st.processes ∧
    w'.hist = ⟨pid, Sum.inr o, r⟩ :: w.hist := by
  obtain ⟨_, s, hx, rfl⟩ := ha
  obtain ⟨db, hdb, rfl⟩ := Option.map_eq_some_iff.mp hx
  exact ⟨exec_did hdb, rfl, rfl⟩

theorem Lived.goes {s s' : Fleet} {o : LifeOp} (h : Lived s o s') : Goes s s' where
  opened := fun ⟨p, hp⟩ => ⟨p, h.serving p hp⟩
  users _ i user hu := by rw [h.db]; exact hu

/-- An operation of a process keeps the law, if it opens nobody to requests or may. -/
theorem kept_life {o : LifeOp} {r : Except Exc o.Ret} (hi : ¬ w.st.Open → Unopened cfg w.st.db)
    (ha : (manLaw cfg pid t).act w (Sum.inl o) r w') (ho : ∀ p, o = .serve p → @MayServe cfg pid t p w.st) :
    Kept cfg pid t w w' := by
  obtain ⟨hx, hh⟩ := act_life ha
  have hl := exec_lived hx
  refine ⟨fun hno => ?_, hl.goes, fun p r' hhead => ?_⟩
  · rw [hl.db]
    exact hi fun hopen => hno (hl.goes.opened hopen)
  · rw [hh] at hhead
    cases hhead
    exact ho p rfl

/-- A statement that leaves the tables right and takes no user keeps it. -/
theorem kept_auth {o : AuthOp} {r : Except Exc o.Ret} (ha : (manLaw cfg pid t).act w (Sum.inr o) r w')
    (hu : ¬ w.st.Open → Unopened cfg w'.st.db ∧ ∀ i user, w.st.db.users i = some user →
      w'.st.db.users i = some user) :
    Kept cfg pid t w w' := by
  obtain ⟨_, hp, hh⟩ := act_auth ha
  have hopen : w'.st.Open ↔ w.st.Open := by unfold Fleet.Open; rw [hp]
  refine ⟨fun hno => (hu fun ho => hno (hopen.mpr ho)).1,
    ⟨hopen.mpr, fun hno => (hu fun ho => hno (hopen.mpr ho)).2⟩, fun p r' hhead => ?_⟩
  rw [hh] at hhead
  cases hhead

/-! ## Code -/

/-- The operations of a process that neither open it to requests nor take it down. -/
def Quietly (o : webSig.Op) : Prop := ∃ o' : LifeOp, o = .inl o' ∧ o'.quiet = true

theorem quietly {o : LifeOp} (h : o.quiet = true) : Quietly (.inl o) := ⟨o, rfl, h⟩

/-- Quiet operations of a process, after which there is still a user if there was one. -/
theorem wp_quiet {α : Type} {p : WebProg α} (hp : p.Uses Quietly) (P : Fleet → Prop)
    (hP : ∀ s s', Goes s s' → P s → P s') (h : P w.st) : wp (manLaw cfg pid t) p (fun _ w => P w.st) w := by
  refine wp_uses (fun a b hr => hP _ _ hr) ?_ hp h
  rintro w₁ o r w₂ ⟨o', rfl, hq⟩ hp₁ hi ha
  have hk := kept_life (r := r) hi ha fun p ho => by
    subst ho
    cases hq
  exact ⟨hk, hP _ _ hk.goes hp₁⟩

theorem exists_of_count {db : AuthDb} (h : db.countUsers ≠ 0) : ∃ i user, db.users i = some user := by
  obtain ⟨i, -, hi⟩ := List.countP_pos_iff.mp (Nat.pos_of_ne_zero h)
  obtain ⟨user, hu⟩ := Option.isSome_iff_exists.mp hi
  exact ⟨i, user, hu⟩

theorem counted_users {verify : String → String → Bool} {s s' : AuthDb} {n : Nat}
    (h : Did verify s .countUsers (.ok n) s') :
    n = s.countUsers := by
  generalize hr : (Except.ok n : Except Exc AuthOp.countUsers.Ret) = r at h
  cases h with
  | raised e => cases hr
  | counted => exact Except.ok.inj hr

theorem hashed_verify {verify : String → String → Bool} {s s' : AuthDb} {password hash : String}
    (h : Did verify s (.hashPassword password) (.ok hash) s') : verify password hash = true := by
  generalize hr : (Except.ok hash : Except Exc (AuthOp.hashPassword password).Ret) = r at h
  cases h with
  | raised e => cases hr
  | hashed hv =>
    cases Except.ok.inj hr
    exact hv

/-- A statement that reads. -/
theorem kept_read {o : AuthOp} {r : Except Exc o.Ret} (ho : o.reads = true) (hi : ¬ w.st.Open → Unopened cfg w.st.db)
    (ha : (manLaw cfg pid t).act w (Sum.inr o) r w') : Kept cfg pid t w w' ∧ w'.st.db = w.st.db := by
  have hdb : w'.st.db = w.st.db := (act_auth ha).1.of_reads ho
  refine ⟨kept_auth ha fun hno => ?_, hdb⟩
  rw [hdb]
  exact ⟨hi hno, fun _ _ hu => hu⟩

/-- The insert, once the password is hashed. -/
theorem wp_createAdmin {hash : String} (hhash : cfg.verify cfg.adminPassword hash = true) :
    wp (manLaw cfg pid t) (createUser cfg.adminEmail hash (some "Admin") true).lift
      (fun x w => ∀ a, x = .ok a → Manned w.st) w := by
  show wp _ (@Prog.await authSig Exc (.createUser cfg.adminEmail hash (some "Admin") true)).lift _ w
  rw [Prog.lift_await]
  refine wp_await fun w₁ _ hi r w₂ ha => ?_
  obtain ⟨hd, hp, -⟩ := act_auth (o := .createUser cfg.adminEmail hash (some "Admin") true) ha
  generalize hdb : w₂.st.db = db at hd
  cases hd with
  | raised e =>
    refine ⟨kept_auth (o := .createUser cfg.adminEmail hash (some "Admin") true) ha fun hno => ?_,
      fun a h => by cases h⟩
    rw [hdb]
    exact ⟨hi hno, fun _ _ hu => hu⟩
  | @created id _ _ _ _ hid hfree =>
    refine ⟨kept_auth (o := .createUser cfg.adminEmail hash (some "Admin") true) ha fun hno => ?_, fun _ _ => .inr ?_⟩
    · rw [hdb]
      refine ⟨(hi hno).insert hid hfree hhash, fun i user hu => ?_⟩
      have hne : i ≠ id := fun he => hid (he ▸ (hi hno).used i user hu)
      rw [addUser_ne _ _ hne]
      exact hu
    · rw [hdb]
      exact ⟨id, _, addUser_self _ _ _⟩

/-- What `ensure_admin_exists` does once the users are counted. -/
def insertAdmin (cfg : AuthConfig) (count : Nat) : AuthProg Unit :=
  if count = 0 then
    (hashPassword cfg.adminPassword).bind fun passwordHash =>
      (createUser cfg.adminEmail passwordHash (some "Admin") true).bind fun _ => .ret ()
  else .ret ()

theorem ensureAdminExists_eq (cfg : AuthConfig) : ensureAdminExists cfg = countUsers.bind (insertAdmin cfg) := rfl

theorem wp_insertAdmin {count : Nat} (hcount : count ≠ 0 → Manned w.st) :
    wp (manLaw cfg pid t) (insertAdmin cfg count).lift (fun x w => ∀ a, x = .ok a → Manned w.st) w := by
  unfold insertAdmin
  by_cases hzero : count = 0
  · rw [if_pos hzero, Prog.lift_bind]
    refine wp_bind.mpr ?_
    show wp _ (@Prog.await authSig Exc (.hashPassword cfg.adminPassword)).lift _ w
    rw [Prog.lift_await]
    refine wp_await fun w₁ _ hi r w₂ ha => ⟨(kept_read (o := .hashPassword cfg.adminPassword) rfl hi ha).1, ?_⟩
    cases r with
    | error e => exact fun a h => by cases h
    | ok hash =>
      have hv := hashed_verify (act_auth (o := .hashPassword cfg.adminPassword) ha).1
      show wp _ ((createUser cfg.adminEmail hash (some "Admin") true).bind fun _ => .ret ()).lift _ w₂
      rw [Prog.lift_bind]
      refine wp_bind.mpr (wp_mono (fun x w hx => ?_) (wp_createAdmin hv))
      cases x with
      | error e => exact fun a h => by cases h
      | ok row => exact fun _ _ => hx row rfl
  · rw [if_neg hzero]
    exact fun _ _ => hcount hzero

/-- A start that gets past `ensure_admin_exists` has found a user or made one. -/
theorem wp_ensureAdmin : wp (manLaw cfg pid t) (ensureAdminExists cfg).lift
    (fun x w => ∀ a, x = .ok a → Manned w.st) w := by
  rw [ensureAdminExists_eq, Prog.lift_bind]
  refine wp_bind.mpr ?_
  show wp _ (@Prog.await authSig Exc .countUsers).lift _ w
  rw [Prog.lift_await]
  refine wp_await fun w₁ _ hi r w₂ ha => ?_
  obtain ⟨hk, hdb⟩ := kept_read (o := .countUsers) rfl hi ha
  refine ⟨hk, ?_⟩
  cases r with
  | error e => exact fun a h => by cases h
  | ok count =>
    have hcount := counted_users (act_auth (o := .countUsers) ha).1
    refine wp_insertAdmin fun hne => .inr ?_
    rw [hdb]
    exact exists_of_count (hcount ▸ hne)

theorem ensureJwtSecretValid_cases (cfg : AuthConfig) (env : Env) :
    (ensureJwtSecretValid cfg env = .ret () ∧ Secure cfg env) ∨ ∃ e, ensureJwtSecretValid cfg env = .raise e := by
  unfold ensureJwtSecretValid Secure
  cases hv : validateJwtSecret cfg env with
  | none => exact .inl ⟨rfl, fun _ => rfl⟩
  | some error =>
    cases hp : isProduction cfg env with
    | true => exact .inr ⟨_, rfl⟩
    | false => exact .inl ⟨rfl, fun h => by cases h⟩

theorem wp_startup (env : Env) (p : Nat) :
    wp (manLaw cfg pid t) (startup cfg env p) (fun x w => ∀ a, x = .ok a → Manned w.st ∧ Secure cfg env) w := by
  unfold startup
  rcases ensureJwtSecretValid_cases cfg env with ⟨hret, hsecure⟩ | ⟨e, hraise⟩
  · rw [hret, Prog.bind_def, Prog.ret_bind]
    have hengine : ∀ w : WebWorld cfg, wp (manLaw cfg pid t) (getEngine p) (fun _ _ => True) w := fun w =>
      wp_quiet (uses_getEngine (fun _ => quietly) p) (fun _ => True) (fun _ _ _ _ => trivial) trivial
    refine wp_seq (hengine w) (fun e w _ a h => by cases h) fun _ w _ => ?_
    refine wp_bind.mpr (wp_mono (fun x w hx => ?_) wp_ensureAdmin)
    cases x with
    | error e => exact fun a h => by cases h
    | ok a =>
      -- the rest is quiet, and a user stays while nobody serves
      refine wp_mono (fun x w hm _ _ => ⟨hm, hsecure⟩)
        (wp_quiet ?_ Manned (fun _ _ h => h.manned) (hx a rfl))
      refine .bind (uses_startJobQueue (fun _ => quietly) p) fun _ => .bind ?_
        fun _ => uses_startMetricsSampler (fun _ => quietly) p
      exact uses_swallowing (uses_getEngine (fun _ => quietly) p) trivial
  · rw [hraise]
    exact fun a h => by cases h

theorem wp_served {p : Nat} (h : @MayServe cfg pid t p w.st) {Q : Except Exc Unit → WebWorld cfg → Prop}
    (hQ : ∀ x w, Q x w) :
    wp (manLaw cfg pid t) (serve p) Q w := by
  refine wp_await fun w₁ hr hi r w₂ ha => ⟨kept_life hi ha fun q hq => ?_, hQ r w₂⟩
  cases hq
  exact ⟨h.1, h.2.1, hr.manned h.2.2⟩

/-- Operations that open nobody to requests. -/
def Shut (o : webSig.Op) : Prop := ∃ o' : LifeOp, o = .inl o' ∧ ∀ p, o' ≠ .serve p

theorem wp_shut {α : Type} {p : WebProg α} (hp : p.Uses Shut) : wp (manLaw cfg pid t) p (fun _ _ => True) w := by
  refine wp_uses (fun _ _ _ h => h) ?_ hp trivial
  rintro w₁ o r w₂ ⟨o', rfl, ho⟩ _ hi ha
  exact ⟨kept_life hi ha fun p h => absurd h (ho p), trivial⟩

theorem shut_quiet {o : LifeOp} (h : o.quiet = true) : Shut (.inl o) := ⟨o, rfl, fun p hp => by subst hp; cases h⟩

theorem uses_drain (p : Nat) (drainSeconds : Int) : (drain p drainSeconds).Uses Shut := by
  have hshutdown : (shutdown p).Uses Shut :=
    uses_shutdown p (fun _ => shut_quiet rfl) fun _ => ⟨_, rfl, fun _ h => by cases h⟩
  refine .bind (uses_perform ⟨_, rfl, fun _ h => by cases h⟩) fun (signalled : Bool) => ?_
  cases signalled with
  | true =>
    refine .bind (uses_perform ⟨_, rfl, fun _ h => by cases h⟩)
      fun now => .bind (uses_perform ⟨_, rfl, fun _ h => by cases h⟩) fun _ => ?_
    exact hshutdown
  | false => exact hshutdown

theorem wp_lifespan (env : Env) : wp (manLaw cfg pid (.lifespan env)) (lifespan cfg env pid) (fun _ _ => True) w := by
  unfold lifespan
  refine wp_bind.mpr (wp_mono (fun x w hx => ?_) (wp_startup env pid))
  cases x with
  | error e => trivial
  | ok a =>
    obtain ⟨hmanned, hsecure⟩ := hx a rfl
    rw [andThen_ok]
    cases env.gracefulDrainSeconds with
    | none => trivial
    | some drainSeconds =>
      refine wp_bind.mpr (wp_mono (fun x w hm => ?_)
        (wp_quiet (uses_perform (quietly rfl)) Manned (fun _ _ h => h.manned) hmanned))
      cases x with
      | error e => trivial
      | ok a =>
        rw [andThen_ok]
        have hend : ∀ (k : Unit → WebProg Unit) (w : WebWorld cfg),
            (∀ a w, wp (manLaw cfg pid (.lifespan env)) (k a) (fun _ _ => True) w) →
            wp (manLaw cfg pid (.lifespan env)) (drain pid drainSeconds)
              (andThen (manLaw cfg pid (.lifespan env)) k fun _ _ => True) w := by
          refine fun k w hk => wp_mono (fun x w _ => ?_) (wp_shut (uses_drain pid drainSeconds))
          cases x with
          | error e => trivial
          | ok a => exact hk a w
        refine wp_finally.mpr (wp_bind.mpr (wp_served ⟨rfl, ⟨env, rfl, hsecure⟩, hm⟩ fun x w => ?_))
        cases x with
        | error e => exact hend _ w fun _ _ => trivial
        | ok a =>
          refine wp_mono (fun x w _ => ?_)
            (wp_shut (p := awaitExit pid) (uses_perform ⟨_, rfl, fun _ h => by cases h⟩))
          cases x with
          | error e => exact hend _ w fun _ _ => trivial
          | ok a => exact hend _ w fun _ _ => trivial

/-- Once requests come, whatever a statement does keeps the law. -/
theorem wp_open {α : Type} (p : AuthProg α) (h : w.st.Open) : wp (manLaw cfg pid t) p.lift (fun _ _ => True) w := by
  have huses : (p.lift : WebProg α).Uses fun o => ∃ o', o = Sum.inr o' :=
    .lift (.mono (fun o _ => ⟨o, rfl⟩) p.uses_all)
  have hrely : ∀ a b : WebWorld cfg, Goes a.st b.st → a.st.Open → b.st.Open := fun _ _ hr => hr.opened
  refine wp_mono (fun _ _ _ => trivial) (wp_uses hrely ?_ huses h)
  rintro w₁ o r w₂ ⟨o', rfl⟩ hopen _ ha
  have hk := kept_auth ha fun hno => absurd hopen hno
  exact ⟨hk, hk.goes.opened hopen⟩

theorem wp_task (hstart : (webSystem cfg).starts w.st t = true) :
    wp (manLaw cfg pid t) ((webSystem cfg).code pid t) (fun _ _ => True) w := by
  cases t with
  | lifespan env =>
    exact wp_seq (wp_mono (fun _ _ _ => trivial) (wp_lifespan env)) (fun _ _ _ => trivial) fun _ _ _ => trivial
  | ready p =>
    exact wp_seq (wp_quiet (uses_readiness (fun _ => quietly) p) (fun _ => True) (fun _ _ _ _ => trivial) trivial)
      (fun _ _ _ => trivial) fun _ _ _ => trivial
  | signal p =>
    exact wp_seq (wp_shut (uses_perform ⟨_, rfl, fun _ h => by cases h⟩)) (fun _ _ _ => trivial) fun _ _ _ => trivial
  | request p request => exact wp_seq (wp_open _ ⟨p, hstart⟩) (fun _ _ _ => trivial) fun _ _ _ => trivial

variable (cfg) in
def manSound : Sound (webSystem cfg) any where
  inv w := ¬ w.st.Open → Unopened cfg w.st.db
  rely _ w w' := Goes w.st w'.st
  guar := Kept cfg
  allow _ _ _ _ := True
  post _ _ _ _ := True
  refl _ w := .refl w.st
  trans _ _ _ _ h h' := h.trans h'
  init s hs := by
    intro _
    have hnone : ∀ i user, s.db.users i ≠ some user := fun i user hu => by rw [hs.1 i] at hu; cases hu
    exact ⟨fun i user hu => absurd hu (hnone i user), fun i user hu => absurd hu (hnone i user),
      fun i j user user' hu => absurd hu (hnone i user)⟩
  keep _ _ _ _ _ hg := hg.unopened
  others _ _ _ _ _ _ _ hg := hg.goes
  outside w e s hi he := by
    cases he
    exact ⟨fun hno => ⟨(hi hno).used, (hi hno).admin, (hi hno).one⟩, fun _ => ⟨fun h => h, fun _ _ _ hu => hu⟩⟩
  allowed _ _ _ := trivial
  stable _ _ _ _ _ _ _ := trivial
  code _ _ _ _ hs _ := wp_task hs

/-! ## Runs -/

/-- Whenever a process of a deployment begins to serve, its secret is in order if it is in
    production; and the first to serve finds one user, the admin, and no other. -/
theorem first_admin {s : Fleet} (hs : (webSystem cfg).init s) (f : Sched (webSystem cfg)) {n pid p : Nat}
    {r : Except Exc Unit} (he : event (conf s f n) (f n) = some ⟨pid, Sum.inl (.serve p), r⟩) :
    (∃ env, (conf s f n).task p = some (.lifespan env) ∧ Secure cfg env) ∧
      ((∀ q, ((conf s f n).w.st.processes q).serving = false) →
        ∃ i user, (conf s f n).w.st.db.users i = some user ∧ TheAdmin cfg user ∧
          ∀ j user', (conf s f n).w.st.db.users j = some user' → j = i) := by
  have hreach : Reach any (conf s f n) := conf_reach hs fun _ _ _ _ => trivial
  obtain ⟨k, s', hp, hx, -⟩ := event_some he
  obtain ⟨t, ht, hg⟩ := (manSound cfg).promise hreach hp hx trivial
  obtain ⟨rfl, ⟨env, rfl, hsecure⟩, hmanned⟩ := hg.serves p r rfl
  refine ⟨⟨env, ht, hsecure⟩, fun hnone => ?_⟩
  have hshut : ¬ (conf s f n).w.st.Open := fun ⟨q, hq⟩ => by rw [hnone q] at hq; cases hq
  obtain ⟨i, user, hu⟩ := hmanned.resolve_left hshut
  have hunopened := ((manSound cfg).keeps hreach).1 hshut
  exact ⟨i, user, hu, hunopened.admin i user hu, fun j user' hu' => hunopened.one j i user' user hu' hu⟩

/-- What the parts of a process answer when all is well. -/
def lifeAnswer (s : Fleet) : (o : LifeOp) → Except Exc o.Ret
  | .has p part => .ok ((s.processes p).parts part)
  | .isSet p => .ok (s.processes p).shutdownEvent
  | .isDraining p => .ok (s.processes p).draining
  | .time => .ok s.db.now
  | .connect _ _ | .subscribe _ | .forget _ _ | .close _ _ | .addSignalHandlers _ | .serve _
  | .awaitExit _ | .sleep _ | .onSigterm _
  | .makeRedisClient | .check _ | .aclose => .ok ()

def webAnswer (s : Fleet) : (o : webSig.Op) → Except Exc (webSig.Ret o)
  | .inl o => lifeAnswer s o
  | .inr o => obey (uuid 10) s.db o

def webRuns (pid : Nat) : Choice (webSystem someConfig) := .run pid webAnswer

def noRows : Fleet := ⟨⟨0, fun _ => none, fun _ => none, [], []⟩, fun _ => Process.new⟩

theorem noRows_init : (webSystem someConfig).init noRows := ⟨fun _ => rfl, fun _ => rfl⟩

/-- No secret is set, which is fine outside production. -/
def development : Env := ⟨"", "", "", some 30⟩

def starting : Sched (webSystem someConfig) := sched [.start (.lifespan development)] (webRuns 0)

theorem first_admin_starting : ∃ i user, (conf noRows starting 16).w.st.db.users i = some user ∧
    TheAdmin someConfig user ∧
    ∀ j user', (conf noRows starting 16).w.st.db.users j = some user' → j = i :=
  (@first_admin someConfig noRows noRows_init starting 16 0 0 (.ok ()) rfl).2 (by intro q; cases q <;> rfl)

end Connect.Web.Lifespan
