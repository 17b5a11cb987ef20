/-
  Connect.Web.Drained — a web process that is told to stop, over every interleaving.

  The signal handler sets two flags. The readiness probe reads the one, so that a load
  balancer finds the process gone (`unready_after_signal`), and answers 200 only when every
  check passed (`ready_checked`). The `finally` of the lifespan reads the other: it is read
  after the `yield`, and where it was set by then the drain window is slept before any part is
  closed (`teardown_waits`). The law carries, for each process, what its history says of its
  own past: whether it has left the `yield`, and what it may close since (`Waited`).
-/

import Connect.Web.FirstAdmin

namespace Connect.Web.Lifespan

open Await Auth

variable {cfg : AuthConfig}

/-! ## The law of the processes -/

/-- Time passes, and a flag once set stays set. -/
structure Aged (s s' : Fleet) : Prop where
  now : s.db.now ≤ s'.db.now
  draining : ∀ p, (s.processes p).draining = true → (s'.processes p).draining = true
  shutdownEvent : ∀ p, (s.processes p).shutdownEvent = true → (s'.processes p).shutdownEvent = true

theorem Aged.refl (s : Fleet) : Aged s s := ⟨Int.le_refl _, fun _ h => h, fun _ h => h⟩

theorem Aged.trans {a b c : Fleet} (h : Aged a b) (h' : Aged b c) : Aged a c :=
  ⟨Int.le_trans h.now h'.now, fun p hp => h'.draining p (h.draining p hp), fun p hp => h'.shutdownEvent p
    (h.shutdownEvent p hp)⟩

theorem Lived.aged {s s' : Fleet} {o : LifeOp} (h : Lived s o s') : Aged s s' :=
  ⟨Int.le_of_eq (by rw [h.db]), h.draining, h.shutdownEvent⟩

/-- The process has left its `yield`. -/
def Left (pid : Nat) (w : WebWorld cfg) : Prop :=
  ∃ r, (⟨pid, Sum.inl (.awaitExit pid), r⟩ : Event webSig Exc) ∈ w.hist

/-- It read its event, and where that was set it slept through the drain window. -/
def Waited (pid : Nat) (drainSeconds : Int) (w : WebWorld cfg) : Prop :=
  (⟨pid, Sum.inl (.isSet pid), .ok false⟩ : Event webSig Exc) ∈ w.hist ∨
    ∃ now : Int, (⟨pid, Sum.inl .time, .ok now⟩ : Event webSig Exc) ∈ w.hist ∧
    now + drainSeconds * second ≤ w.st.db.now

/-- The probe made this check and it passed, or something of it raised with the text ok. -/
def Asked (pid : Nat) (c : Check) (w : WebWorld cfg) : Prop :=
  (⟨pid, Sum.inl (.check c), .ok ()⟩ : Event webSig Exc) ∈ w.hist ∨
    ∃ (o : LifeOp) (e : Exc), (⟨pid, Sum.inl o, .error e⟩ : Event webSig Exc) ∈ w.hist ∧ e.text = "ok"

/-- What `/ready` may answer. -/
inductive Probed (pid p : Nat) (w : WebWorld cfg) : Readiness → Prop where
  | draining : Probed pid p w draining
  | ready (asked : (⟨pid, Sum.inl (.isDraining p), .ok false⟩ : Event webSig Exc) ∈ w.hist)
      (passed : ∀ c, Asked pid c w) :
      Probed pid p w ⟨200, "ok", []⟩
  | notReady (checks : List (String × String))
      (asked : (⟨pid, Sum.inl (.isDraining p), .ok false⟩ : Event webSig Exc) ∈ w.hist)
      (failed : ∃ entry ∈ checks, entry.2 ≠ "ok") : Probed pid p w ⟨503, "not_ready", checks⟩

/-- The history grows, the clock is looked at after the `yield`, and only a lifespan closes its
    own parts, once it waited. -/
structure Minded (cfg : AuthConfig) (pid : Nat) (t : Task) (w w' : WebWorld cfg) : Prop where
  hist : w.hist <:+ w'.hist
  aged : Aged w.st w'.st
  reads : ∀ o r, w'.hist.head? = some ⟨pid, Sum.inl o, r⟩ → o = .isSet pid ∨ o = .time → Left pid w
  closes : ∀ p part r, w'.hist.head? = some ⟨pid, Sum.inl (.close p part), r⟩ →
    p = pid ∧ ∃ env drainSeconds, t = .lifespan env ∧ env.gracefulDrainSeconds = some drainSeconds ∧
    Waited pid drainSeconds w

/-- What the others do. -/
structure Past (w w' : WebWorld cfg) : Prop where
  hist : w.hist <:+ w'.hist
  aged : Aged w.st w'.st

theorem Past.refl (w : WebWorld cfg) : Past w w := ⟨List.suffix_refl _, .refl _⟩

theorem Past.trans {a b c : WebWorld cfg} (h : Past a b) (h' : Past b c) : Past a c :=
  ⟨h.hist.trans h'.hist, h.aged.trans h'.aged⟩

theorem Past.left {w w' : WebWorld cfg} (h : Past w w') {pid : Nat} : Left pid w → Left pid w' :=
  fun ⟨r, hr⟩ => ⟨r, h.hist.mem hr⟩

theorem Past.waited {w w' : WebWorld cfg} (h : Past w w') {pid : Nat} {drainSeconds : Int} :
    Waited pid drainSeconds w → Waited pid drainSeconds w' := by
  rintro (hs | ⟨now, hn, hle⟩)
  · exact .inl (h.hist.mem hs)
  · exact .inr ⟨now, h.hist.mem hn, Int.le_trans hle h.aged.now⟩

theorem Past.asked {w w' : WebWorld cfg} (h : Past w w') {pid : Nat} {c : Check} :
    Asked pid c w → Asked pid c w' := by
  rintro (hc | ⟨o, e, he, ht⟩)
  · exact .inl (h.hist.mem hc)
  · exact .inr ⟨o, e, h.hist.mem he, ht⟩

theorem Past.probed {w w' : WebWorld cfg} (h : Past w w') {pid p : Nat} {a : Readiness} :
    Probed pid p w a → Probed pid p w' a
  | .draining => .draining
  | .ready asked passed => .ready (h.hist.mem asked) fun c => h.asked (passed c)
  | .notReady checks asked failed => .notReady checks (h.hist.mem asked) failed

abbrev mindLaw (cfg : AuthConfig) (pid : Nat) (t : Task) : Law (WebWorld cfg) webSig Exc :=
  (webSystem cfg).law (fun _ => True) (fun _ => Past) (fun pid => Minded cfg pid t) (fun _ _ _ _ => True) pid

theorem Minded.past {pid : Nat} {t : Task} {w w' : WebWorld cfg} (h : Minded cfg pid t w w') : Past w w' :=
  ⟨h.hist, h.aged⟩

variable {pid : Nat} {t : Task} {w w' : WebWorld cfg}

theorem mind_life {o : LifeOp} {r : Except Exc o.Ret} (ha : (mindLaw cfg pid t).act w (Sum.inl o) r w') :
    w.st.exec o r = some w'.st ∧ w'.hist = ⟨pid, Sum.inl o, r⟩ :: w.hist := by
  obtain ⟨_, s, hx, rfl⟩ := ha
  exact ⟨hx, rfl⟩

/-- Operations that need no permission. -/
def LifeOp.free : LifeOp → Bool
  | .close _ _ | .isSet _ | .time => false
  | _ => true

theorem minded_life {o : LifeOp} {r : Except Exc o.Ret} (ha : (mindLaw cfg pid t).act w (Sum.inl o) r w')
    (hreads : o = .isSet pid ∨ o = .time → Left pid w)
    (hcloses : ∀ p part, o = .close p part →
      p = pid ∧ ∃ env drainSeconds, t = .lifespan env ∧ env.gracefulDrainSeconds = some drainSeconds ∧
      Waited pid drainSeconds w) :
    Minded cfg pid t w w' := by
  obtain ⟨hx, hh⟩ := mind_life ha
  refine ⟨hh ▸ List.suffix_cons _ _, (exec_lived hx).aged, fun o' r' hhead ho => ?_, fun p part r' hhead => ?_⟩
  · rw [hh] at hhead
    cases hhead
    exact hreads ho
  · rw [hh] at hhead
    cases hhead
    exact hcloses p part rfl

theorem minded_free {o : LifeOp} {r : Except Exc o.Ret} (ho : o.free = true)
    (ha : (mindLaw cfg pid t).act w (Sum.inl o) r w') :
    Minded cfg pid t w w' := by
  refine minded_life ha (fun h => ?_) fun p part h => ?_
  · rcases h with rfl | rfl <;> cases ho
  · subst h
    cases ho

theorem minded_auth {o : AuthOp} {r : Except Exc o.Ret} (ha : (mindLaw cfg pid t).act w (Sum.inr o) r w') :
    Minded cfg pid t w w' := by
  obtain ⟨_, s, hx, rfl⟩ := ha
  obtain ⟨db, hdb, rfl⟩ := Option.map_eq_some_iff.mp hx
  refine ⟨List.suffix_cons _ _, ⟨(exec_did hdb).later.now, fun _ h => h, fun _ h => h⟩,
    fun o' r' hhead => ?_, fun p part r' hhead => ?_⟩
  · cases hhead
  · cases hhead

/-! ## Code -/

/-- An operation that needs no permission, and what it leaves in the history. -/
theorem wp_free {o : LifeOp} (ho : o.free = true) :
    wp (mindLaw cfg pid t) (perform o) (fun x w => (⟨pid, Sum.inl o, x⟩ : Event webSig Exc) ∈ w.hist) w := by
  refine wp_await fun w₁ _ _ r w₂ ha => ⟨minded_free ho ha, ?_⟩
  rw [(mind_life (o := o) ha).2]
  exact List.mem_cons_self

/-- What the history says stays said. -/
theorem wp_past {α : Type} {p : WebProg α} {Q : Except Exc α → WebWorld cfg → Prop} {F : WebWorld cfg → Prop}
    (hF : ∀ a b, Past a b → F a → F b) (hp : wp (mindLaw cfg pid t) p Q w) (h : F w) :
    wp (mindLaw cfg pid t) p (fun x w => Q x w ∧ F w) w := by
  have hown : ∀ a b, (mindLaw cfg pid t).guar a b → F a → F b := fun a b hg => hF a b (Minded.past hg)
  exact wp_frame hF hown hp h

def Free (o : webSig.Op) : Prop := ∀ o' : LifeOp, o = .inl o' → o'.free = true

theorem free_quiet {o : LifeOp} (h : o.quiet = true) : Free (.inl o) := by
  intro o' ho
  cases ho
  cases o <;> first | rfl | cases h

theorem wp_uses_free {α : Type} {p : WebProg α} (hp : p.Uses Free) :
    wp (mindLaw cfg pid t) p (fun _ _ => True) w := by
  refine wp_uses (fun _ _ _ h => h) ?_ hp trivial
  intro w₁ o r w₂ ho _ _ ha
  rcases o with o | o
  · exact ⟨minded_free (ho o rfl) ha, trivial⟩
  · exact ⟨minded_auth ha, trivial⟩

theorem uses_startup (env : Env) (p : Nat) : (startup cfg env p).Uses Free := by
  have hq : ∀ o : LifeOp, o.quiet = true → Free (.inl o) := fun _ => free_quiet
  have hsecret : (ensureJwtSecretValid cfg env).Uses Free := by
    rcases ensureJwtSecretValid_cases cfg env with ⟨hret, -⟩ | ⟨e, hraise⟩
    · rw [hret]; trivial
    · rw [hraise]; trivial
  have hadmin : ((ensureAdminExists cfg).lift : WebProg Unit).Uses Free :=
    .lift (.mono (fun _ _ _ h => by cases h) (ensureAdminExists cfg).uses_all)
  refine .bind hsecret fun _ => .bind (uses_getEngine hq p) fun _ => .bind hadmin
    fun _ => .bind (uses_startJobQueue hq p) fun _ => ?_
  exact .bind (uses_swallowing (uses_getEngine hq p) trivial) fun _ => uses_startMetricsSampler hq p

/-! ### The end of a lifespan -/

/-- The event is read, and the clock, when the `yield` has been left. -/
theorem wp_reads {env : Env} {o : LifeOp} (ho : o = .isSet pid ∨ o = .time) (h : Left pid w) :
    wp (mindLaw cfg pid (.lifespan env)) (perform o)
      (fun x w => (⟨pid, Sum.inl o, x⟩ : Event webSig Exc) ∈ w.hist ∧ Left pid w) w := by
  refine wp_await fun w₁ hr _ r w₂ ha => ?_
  have hm : Minded cfg pid (.lifespan env) w₁ w₂ := by
    refine minded_life ha (fun _ => hr.left h) fun p part h => ?_
    rcases ho with rfl | rfl <;> cases h
  refine ⟨hm, ?_, hm.past.left (hr.left h)⟩
  rw [(mind_life ha).2]
  exact List.mem_cons_self

section Drain

variable {env : Env} {drainSeconds : Int} (hd : env.gracefulDrainSeconds = some drainSeconds)

include hd

theorem wp_shutdown (h : Waited pid drainSeconds w) :
    wp (mindLaw cfg pid (.lifespan env)) (shutdown pid) (fun _ _ => True) w := by
  have huses : (shutdown pid).Uses fun o => ∃ part, o = Sum.inl (.has pid part) ∨ o = Sum.inl (.close pid part) :=
    uses_shutdown pid (fun part => ⟨part, .inl rfl⟩) fun part => ⟨part, .inr rfl⟩
  refine wp_mono (fun _ _ _ => trivial)
    (wp_uses (P := Waited pid drainSeconds) (fun a b (hr : Past a b) => hr.waited) ?_ huses h)
  rintro w₁ o r w₂ ⟨part, rfl | rfl⟩ hw _ ha
  · have hm := minded_free (o := .has pid part) rfl ha
    exact ⟨hm, hm.past.waited hw⟩
  · have hm : Minded cfg pid (.lifespan env) w₁ w₂ := by
      refine minded_life (o := .close pid part) ha (fun h => ?_) fun p part' h => ?_
      · rcases h with h | h <;> cases h
      · cases h
        exact ⟨rfl, env, drainSeconds, rfl, hd, hw⟩
    exact ⟨hm, hm.past.waited hw⟩

theorem wp_drain (h : Left pid w) : wp (mindLaw cfg pid (.lifespan env)) (drain pid drainSeconds)
    (fun _ _ => True) w := by
  refine wp_bind.mpr (wp_mono (fun x w hx => ?_) (wp_reads (.inl rfl) h))
  rcases x with e | signalled
  · trivial
  cases signalled with
  | false => exact wp_shutdown hd (.inl hx.1)
  | true =>
    refine wp_bind.mpr (wp_mono (fun x w hx => ?_) (wp_reads (.inr rfl) hx.2))
    rcases x with e | now
    · trivial
    refine wp_bind.mpr (wp_await fun w₁ hr _ r w₂ ha => ⟨minded_free rfl ha, ?_⟩)
    cases r with
    | error e => trivial
    | ok a =>
      obtain ⟨hle, hst⟩ := exec_sleep (mind_life (o := .sleep (now + drainSeconds * second)) ha).1
      refine wp_shutdown hd (.inr ⟨now, ?_, hst ▸ hle⟩)
      rw [(mind_life (o := .sleep (now + drainSeconds * second)) ha).2]
      exact List.mem_cons_of_mem _ (hr.hist.mem hx.1)

end Drain

theorem wp_minded_lifespan (env : Env) :
    wp (mindLaw cfg pid (.lifespan env)) (lifespan cfg env pid) (fun _ _ => True) w := by
  refine wp_seq (wp_uses_free (uses_startup env pid)) (fun _ _ _ => trivial) fun _ w _ => ?_
  cases hd : env.gracefulDrainSeconds with
  | none => trivial
  | some drainSeconds =>
    refine wp_seq (wp_uses_free (uses_perform (free_quiet rfl))) (fun _ _ _ => trivial) fun _ w _ => ?_
    refine wp_finally.mpr (wp_bind.mpr (wp_await fun w₁ _ _ r w₂ ha => ⟨minded_free rfl ha, ?_⟩))
    cases r with
    | error e => cases (mind_life (o := .serve pid) ha).1
    | ok a =>
      -- whatever the `yield` ends with, it has been left
      refine wp_mono (fun x w hx => ?_) (wp_free (o := .awaitExit pid) rfl)
      have hdrain := wp_drain hd (w := w) ⟨x, hx⟩
      cases x with
      | ok a => exact wp_bind.mp (wp_seq hdrain (fun _ _ _ => trivial) fun _ _ _ => trivial)
      | error e => exact wp_bind.mp (wp_seq hdrain (fun _ _ _ => trivial) fun _ _ _ => trivial)

/-! ### The readiness probe -/

/-- How what a probe tries ends. -/
def Made (pid : Nat) (c : Check) (x : Except Exc Unit) (w : WebWorld cfg) : Prop :=
  match x with
  | .ok _ => (⟨pid, Sum.inl (.check c), .ok ()⟩ : Event webSig Exc) ∈ w.hist
  | .error e => ∃ o : LifeOp, (⟨pid, Sum.inl o, .error e⟩ : Event webSig Exc) ∈ w.hist

/-- What is said of a check, it came to. -/
def Checked (pid : Nat) (c : Check) (x : Except Exc (String × String)) (w : WebWorld cfg) : Prop :=
  ∀ entry, x = .ok entry → entry.2 = "ok" → Asked pid c w

theorem wp_probe {c : Check} {q : WebProg Unit}
    (hq : wp (mindLaw cfg pid t) q (Made pid c) w) :
    wp (mindLaw cfg pid t) (probe c q) (Checked pid c) w := by
  refine wp_bind.mpr (wp_attempt.mpr (wp_mono (fun x w hx => ?_) hq))
  cases x with
  | ok a =>
    intro entry _ _
    exact .inl hx
  | error e =>
    obtain ⟨o, ho⟩ := hx
    show wp _ (if e.isException = true then .ret (c.name, e.text) else .raise e) _ w
    by_cases he : e.isException = true
    · rw [if_pos he]
      intro entry hentry hok
      cases hentry
      exact .inr ⟨o, e, ho, hok⟩
    · rw [if_neg he]
      intro entry hentry
      cases hentry

/-- A check made by one operation. -/
theorem wp_check (c : Check) : wp (mindLaw cfg pid t) (perform (.check c)) (Made pid c) w := by
  refine wp_mono (fun x w hx => ?_) (wp_free (o := .check c) rfl)
  cases x with
  | ok a => exact hx
  | error e => exact ⟨_, hx⟩

theorem wp_probePostgres (p : Nat) :
    wp (mindLaw cfg pid t) (probe .postgres ((getEngine p).bind fun _ => perform (.check .postgres)))
      (Checked pid .postgres) w := by
  refine wp_probe (wp_bind.mpr ?_)
  refine wp_bind.mpr (wp_mono (fun x w hx => ?_) (wp_free (o := .has p .engine) rfl))
  rcases x with e | made
  · exact ⟨_, hx⟩
  cases made with
  | true => exact wp_check .postgres
  | false =>
    refine wp_mono (fun x w hx => ?_) (wp_free (o := .connect p .engine) rfl)
    cases x with
    | ok a => exact wp_check .postgres
    | error e => exact ⟨_, hx⟩

theorem wp_probeValkey : wp (mindLaw cfg pid t) probeValkey (Checked pid .valkey) w := by
  refine wp_bind.mpr (wp_attempt.mpr (wp_mono (fun x w hx => ?_) (wp_free (o := .makeRedisClient) rfl)))
  cases x with
  | ok a =>
    refine wp_finally.mpr (wp_mono (fun x w hx => ?_) (wp_probe (wp_check .valkey)))
    have hclose : wp (mindLaw cfg pid t) (perform .aclose) (fun _ w => Checked pid .valkey x w) w := by
      refine wp_mono (fun _ _ h => h.2)
        (wp_past (fun a b hp h entry he hok => hp.asked (h entry he hok)) (wp_free (o := .aclose) rfl) hx)
    cases x with
    | ok entry =>
      refine wp_mono (fun y w hy => ?_) hclose
      cases y with
      | ok a => exact hy
      | error e => intro entry he; cases he
    | error e =>
      refine wp_mono (fun y w hy => ?_) hclose
      cases y with
      | ok a => exact hy
      | error e => intro entry he; cases he
  | error e =>
    show wp _ (if e.isException = true then .ret (Check.valkey.name, e.text) else .raise e) _ w
    by_cases he : e.isException = true
    · rw [if_pos he]
      intro entry hentry hok
      cases hentry
      exact .inr ⟨_, e, hx, hok⟩
    · rw [if_neg he]
      intro entry hentry
      cases hentry

theorem wp_readiness (p : Nat) :
    wp (mindLaw cfg pid t) (readiness p) (fun x w => ∀ a, x = .ok a → Probed pid p w a) w := by
  refine wp_bind.mpr (wp_mono (fun x w hx => ?_) (wp_free (o := .isDraining p) rfl))
  rcases x with e | shuttingDown
  · intro a ha
    cases ha
  cases shuttingDown with
  | true =>
    intro a ha
    cases ha
    exact .draining
  | false =>
    have hasked : ∀ a b : WebWorld cfg, Past a b →
        (⟨pid, Sum.inl (.isDraining p), .ok false⟩ : Event webSig Exc) ∈ a.hist →
        (⟨pid, Sum.inl (.isDraining p), .ok false⟩ : Event webSig Exc) ∈ b.hist := fun a b hp => hp.hist.mem
    refine wp_bind.mpr (wp_mono (fun x w hpost => ?_) (wp_past hasked (wp_probePostgres p) hx))
    rcases x with e | postgres
    · intro a ha
      cases ha
    have hpostgres : postgres.2 = "ok" → Asked pid .postgres w := hpost.1 postgres rfl
    refine wp_bind.mpr (wp_mono (fun x w hval => ?_)
      (wp_past (F := fun w : WebWorld cfg => (postgres.2 = "ok" → Asked pid .postgres w) ∧
        (⟨pid, Sum.inl (.isDraining p), .ok false⟩ : Event webSig Exc) ∈ w.hist)
        (fun a b hp h => ⟨fun hok => hp.asked (h.1 hok), hp.hist.mem h.2⟩) wp_probeValkey ⟨hpostgres, hpost.2⟩))
    rcases x with e | valkey
    · intro a ha
      cases ha
    have hvalkey : valkey.2 = "ok" → Asked pid .valkey w := hval.1 valkey rfl
    refine wp_bind.mpr (wp_mono (fun x w haws => ?_)
      (wp_past (F := fun w : WebWorld cfg => (valkey.2 = "ok" → Asked pid .valkey w) ∧
        (postgres.2 = "ok" → Asked pid .postgres w) ∧
        (⟨pid, Sum.inl (.isDraining p), .ok false⟩ : Event webSig Exc) ∈ w.hist)
        (fun a b hp h => ⟨fun hok => hp.asked (h.1 hok), fun hok => hp.asked (h.2.1 hok), hp.hist.mem h.2.2⟩)
        (wp_probe (wp_check .aws)) ⟨hvalkey, hval.2⟩))
    rcases x with e | aws
    · intro a ha
      cases ha
    obtain ⟨hchecked, hvalkey, hpostgres, hasked⟩ := haws
    have haws : aws.2 = "ok" → Asked pid .aws w := hchecked aws rfl
    show wp _ (if [postgres, valkey, aws].all (·.2 = "ok") = true then .ret (Readiness.mk 200 "ok" [])
      else .ret (Readiness.mk 503 "not_ready" [postgres, valkey, aws])) _ w
    by_cases hall : [postgres, valkey, aws].all (·.2 = "ok") = true
    · rw [if_pos hall]
      intro a ha
      cases ha
      simp only [List.all_cons, List.all_nil, Bool.and_true, Bool.and_eq_true, decide_eq_true_eq] at hall
      refine .ready hasked fun c => ?_
      cases c with
      | postgres => exact hpostgres hall.1
      | valkey => exact hvalkey hall.2.1
      | aws => exact haws hall.2.2
    · rw [if_neg hall]
      intro a ha
      cases ha
      refine .notReady _ hasked ?_
      simp only [Bool.not_eq_true, List.all_eq_false, decide_eq_true_eq] at hall
      exact hall

/-- What a task leaves when it is through. -/
def Leaves (cfg : AuthConfig) (pid : Nat) (t : Task) (x : Except Exc Answer) (w : WebWorld cfg) : Prop :=
  ∀ p a, t = .ready p → x = .ok (.ready a) → Probed pid p w a

theorem wp_minded (t : Task) : wp (mindLaw cfg pid t) ((webSystem cfg).code pid t) (Leaves cfg pid t) w := by
  cases t with
  | lifespan env =>
    exact wp_seq (wp_minded_lifespan env) (fun _ _ _ _ _ h => by cases h) fun _ _ _ _ _ h => by cases h
  | ready p =>
    refine wp_bind.mpr (wp_mono (fun x w hx => ?_) (wp_readiness p))
    cases x with
    | error e => exact fun _ _ _ h => by cases h
    | ok a =>
      intro q b hq hb
      cases hq
      cases hb
      exact hx a rfl
  | signal p =>
    exact wp_seq (wp_uses_free (uses_perform fun o' h => by cases h; rfl)) (fun _ _ _ _ _ h => by cases h)
      fun _ _ _ _ _ h => by cases h
  | request p request =>
    have huses : ((request.code cfg).lift : WebProg Reply).Uses Free :=
      .lift (.mono (fun _ _ _ h => by cases h) (request.code cfg).uses_all)
    exact wp_seq (wp_uses_free huses) (fun _ _ _ _ _ h => by cases h) fun _ _ _ _ _ h => by cases h

variable (cfg) in
def mindSound : Sound (webSystem cfg) any where
  inv _ := True
  rely _ := Past
  guar := Minded cfg
  allow _ _ _ _ := True
  post := Leaves cfg
  refl _ := .refl
  trans _ _ _ _ h h' := h.trans h'
  init _ _ := trivial
  keep _ _ _ _ _ _ := trivial
  others _ _ _ _ _ _ _ hg := hg.past
  outside w e s _ he := by
    cases he
    exact ⟨trivial, fun _ => ⟨List.suffix_refl _,
      ⟨Int.le_add_of_nonneg_right (Int.natCast_nonneg e), fun _ h => h, fun _ h => h⟩⟩⟩
  allowed _ _ _ := trivial
  stable _ _ _ _ _ hr hpost p a ht hx := hr.probed (hpost p a ht hx)
  code _ t _ _ _ _ := wp_minded t

/-! ## Runs -/

section Runs

variable {s : Fleet} {f : Sched (webSystem cfg)}

theorem step_aged (hs : (webSystem cfg).init s) (f : Sched (webSystem cfg)) (n : Nat) :
    Aged (conf s f n).w.st (conf s f (n + 1)).w.st := by
  have hreach : Reach any (conf s f n) := conf_reach hs fun _ _ _ _ => trivial
  have hm := step_moved (conf s f n) (f n)
  show Aged _ (step (conf s f n) (f n)).w.st
  revert hm
  generalize step (conf s f n) (f n) = c'
  intro hm
  cases hm with
  | idle => exact .refl _
  | ran hp hx =>
    obtain ⟨t, -, hg⟩ := (mindSound cfg).promise hreach hp hx trivial
    exact hg.aged
  | crashed => exact .refl _
  | started => exact .refl _
  | @moved e _ _ hx => exact (((mindSound cfg).outside (conf s f n).w e _ trivial hx).2 0).aged

theorem conf_aged (hs : (webSystem cfg).init s) (f : Sched (webSystem cfg)) {n m : Nat} (h : n ≤ m) :
    Aged (conf s f n).w.st (conf s f m).w.st := by
  induction h with
  | refl => exact .refl _
  | step _ ih => exact ih.trans (step_aged hs f _)

/-- What a step of a run does to the state. -/
theorem life_event {n pid : Nat} {o : LifeOp} {r : Except Exc o.Ret}
    (he : event (conf s f n) (f n) = some ⟨pid, Sum.inl o, r⟩) :
    (conf s f n).w.st.exec o r = some (conf s f (n + 1)).w.st := by
  obtain ⟨k, s', _, hx, hs'⟩ := event_some he
  have hst : (conf s f (n + 1)).w.st = s' := by
    show (step _ _).w.st = s'
    rw [hs']
    rfl
  rw [hst]
  exact hx

theorem promised (hs : (webSystem cfg).init s) {n pid : Nat} {o : LifeOp} {r : Except Exc o.Ret}
    (he : event (conf s f n) (f n) = some ⟨pid, Sum.inl o, r⟩) :
    ∃ t w', (conf s f n).task pid = some t ∧ Minded cfg pid t (conf s f n).w w' ∧
    w'.hist.head? = some ⟨pid, Sum.inl o, r⟩ := by
  have hreach : Reach any (conf s f n) := conf_reach hs fun _ _ _ _ => trivial
  obtain ⟨k, s', hp, hx, -⟩ := event_some he
  obtain ⟨t, ht, hg⟩ := (mindSound cfg).promise hreach hp hx trivial
  exact ⟨t, _, ht, hg, rfl⟩

/-- From a signal on, a process finds both its flags set. -/
theorem signalled_after (hs : (webSystem cfg).init s) {k n q p : Nat} {r : Except Exc Unit}
    (hsignal : event (conf s f k) (f k) = some ⟨q, Sum.inl (.onSigterm p), r⟩) (h : k < n) :
    ((conf s f n).w.st.processes p).draining = true ∧ ((conf s f n).w.st.processes p).shutdownEvent = true := by
  have hset := exec_onSigterm (life_event (o := .onSigterm p) hsignal)
  have haged := conf_aged hs f (Nat.succ_le_of_lt h)
  exact ⟨haged.draining p hset.1, haged.shutdownEvent p hset.2⟩

/-- A probe that is sent after the signal is told that the process is draining. -/
theorem unready_after_signal (hs : (webSystem cfg).init s) {k m q pid p : Nat} {r : Except Exc Unit} {a : Readiness}
    (hsignal : event (conf s f k) (f k) = some ⟨q, Sum.inl (.onSigterm p), r⟩)
    (hnew : (conf s f (k + 1)).task pid = none)
    (ht : (conf s f m).task pid = some (.ready p))
    (hend : (conf s f m).procs pid = some (.ret (.ready a))) : a = draining := by
  have hreach : Reach any (conf s f m) := conf_reach hs fun _ _ _ _ => trivial
  obtain ⟨t, ht', hleaves⟩ := ((mindSound cfg).keeps hreach).2 pid _ hend
  rw [ht] at ht'
  cases ht'
  have hunset : (⟨pid, Sum.inl (.isDraining p), .ok false⟩ : Event webSig Exc) ∈ (conf s f m).w.hist → False := by
    intro hasked
    obtain ⟨j, -, hj⟩ := hist_event hasked
    have hkj : k + 1 ≤ j := event_started hs hnew hj rfl
    have hset := (signalled_after hs hsignal hkj).1
    rw [← (exec_isDraining (life_event (o := .isDraining p) hj)).1] at hset
    cases hset
  cases (hleaves p a rfl rfl : Probed pid p (conf s f m).w a) with
  | draining => rfl
  | ready asked passed => exact (hunset asked).elim
  | notReady checks asked failed => exact (hunset asked).elim

end Runs

/-! ## A process that is told to stop -/

def serving : List (Choice (webSystem someConfig)) := .start (.lifespan development) :: List.replicate 16 (webRuns 0)

/-- The signal comes while the process serves, and a probe after it; then the server leaves the `yield`. -/
def stopping : Sched (webSystem someConfig) :=
  sched (serving ++ [.start (.signal 0), webRuns 1, .start (.ready 0), webRuns 2, webRuns 0, webRuns 0, webRuns 0,
    .env (30000000 : Nat)]) (webRuns 0)

theorem unready_after_signal_stopping :
    ∃ a, (conf noRows stopping 21).procs 2 = some (.ret (.ready a)) ∧ a = draining :=
  ⟨_, rfl, @unready_after_signal someConfig noRows stopping noRows_init 18 21 1 2 0 (.ok ()) _ rfl rfl rfl rfl⟩

end Connect.Web.Lifespan
