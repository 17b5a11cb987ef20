/-
  Connect.Sqs.Lock — the poll lock is exclusive as long as no sweep outlives its key.

  The key is set with a time to live and never renewed, and a sweep has no bound: its
  length is that of the imports it makes. Once a key has expired, the next worker acquires
  it while the first is still sweeping (`sweeps_overlap`). This is all that can go wrong
  (`sweep_exclusive_iff`): in every run the sweeps are exclusive exactly when nobody calls
  `acquire_poll_lock` at a moment when another worker is a time to live or more into its
  own sweep. `held` carries it: what a sweeping worker acquired is in the key until it
  expires, since the script of `release_poll_lock` deletes the caller's own value only.
-/

import Connect.Sqs.Poller

namespace Connect.Sqs

open Await

variable {room : Nat}

/-- A worker calls the lock under its own id. -/
def OwnLockOp (pid : Nat) : SqsOp → Prop
  | .acquirePollLock workerId | .releasePollLock workerId => workerId = pid
  | _ => True

theorem work_ownLock (pid : Nat) (o : SqsOp) (h : WorkOp o) : OwnLockOp pid o := by
  cases o <;> trivial

theorem uses_releasePollLock (pid : Nat) : (releasePollLock pid).Uses (OwnLockOp pid) := by
  refine .catching (.await rfl) fun e => ?_
  split <;> trivial

theorem uses_pollSqsQueues (pid : Nat) : (pollSqsQueues room pid).Uses (OwnLockOp pid) := by
  refine .bind (.await rfl) fun acquired => ?_
  cases acquired with
  | true =>
    exact .finally_ ((uses_sweep room).mono (work_ownLock pid)) (.bind (uses_releasePollLock pid) fun _ => trivial)
  | false => trivial

/-- The worker id of a lock call is its process. -/
theorem event_ownLock {c : Config (pollers room)} (h : Reach any c) {ch : Choice (pollers room)}
    {e : Event sqsSig Exc} (he : event c ch = some e) : OwnLockOp e.pid e.op := by
  obtain ⟨k, s, hp, _, _⟩ := event_some he
  exact (procs_use OwnLockOp (fun pid _ => uses_pollSqsQueues pid) h e.pid _ hp).1

/-- What a step does to the lock. -/
inductive LockStep (c : Config (pollers room)) (ch : Choice (pollers room)) : Prop
  | kept : (step c ch).w.st.lock = c.w.st.lock → c.w.st.now ≤ (step c ch).w.st.now →
      (∀ pid workerId, event c ch ≠ some ⟨pid, SqsOp.acquirePollLock workerId, .ok true⟩) → LockStep c ch
  | acquired (pid : Nat) : event c ch = some ⟨pid, SqsOp.acquirePollLock pid, .ok true⟩ → c.w.st.holder = none →
      (step c ch).w.st = { c.w.st with lock := some (pid, c.w.st.now + pollLockTtl) } → LockStep c ch
  | released (pid : Nat) : event c ch = some ⟨pid, SqsOp.releasePollLock pid, .ok true⟩ → c.w.st.holder = some pid →
      (step c ch).w.st = { c.w.st with lock := none } → LockStep c ch

theorem lockStep {c : Config (pollers room)} (h : Reach any c) (ch : Choice (pollers room)) : LockStep c ch := by
  rcases he : event c ch with _ | ⟨pid, o, r⟩
  · -- without an operation only the clock can move
    refine .kept ?_ ?_ (by simp [he])
    all_goals
      have hm := step_moved c ch
      revert hm
      generalize step c ch = c'
      intro hm
      cases hm with
      | ran _ _ he' => rw [he] at he'; cases he'
      | idle => simp
      | crashed => simp
      | started => simp
      | moved _ hx => cases hx; first | rfl | exact Nat.le_add_right _ _
  · have hown := event_ownLock h he
    have hd := event_did he
    generalize hst : (step c ch).w.st = s at hd
    simp only at hd
    cases hd with
    | acquired hfree =>
      have : _ = pid := hown
      subst this
      exact .acquired _ he hfree hst
    | released hmine =>
      have : _ = pid := hown
      subst this
      exact .released _ he hmine hst
    | answered hout =>
      refine .kept (by rw [hst]) (Nat.le_of_eq (by rw [hst])) fun q w hq => ?_
      rw [he] at hq
      cases hq
      cases hout
    | _ =>
      refine .kept (by simp [hst, Store.insert, Store.updateStatus]) (by simp [hst, Store.insert, Store.updateStatus])
        fun q w hq => ?_
      rw [he] at hq
      cases hq

theorem holder_some {s : Store} {q : Nat} (h : s.holder = some q) :
    ∃ expires, s.lock = some (q, expires) ∧ s.now < expires := by
  unfold Store.holder at h
  split at h
  · rename_i w e hl
    split at h
    · cases h; exact ⟨e, hl, ‹_›⟩
    · cases h
  · cases h

theorem holder_live {s : Store} {q expires : Nat} (h : s.lock = some (q, expires)) (hlt : s.now < expires) :
    s.holder = some q := by
  simp [Store.holder, h, hlt]

/-! ## Sweeps of a run -/

variable {s : (pollers room).State} {f : Sched (pollers room)}

/-- Worker `q` acquired the lock at step `m` of the run and has not called it since. -/
structure Acquired (s : (pollers room).State) (f : Sched (pollers room)) (n q m : Nat) : Prop where
  before : m < n
  acquire : ∃ workerId, event (conf s f m) (f m) = some ⟨q, SqsOp.acquirePollLock workerId, .ok true⟩
  since : ∀ k, m < k → k < n → ∀ e, event (conf s f k) (f k) = some e → e.pid = q → WorkOp e.op

/-- At moment `n` worker `q` is between its acquire, at step `m`, and its release. -/
def Sweeping (s : (pollers room).State) (f : Sched (pollers room)) (n q m : Nat) : Prop :=
  Acquired s f n q m ∧ (conf s f n).procs q ≠ none

def Exclusive (s : (pollers room).State) (f : Sched (pollers room)) (n : Nat) : Prop :=
  ∀ q m q' m', Sweeping s f n q m → Sweeping s f n q' m' → q = q'

/-- Nobody calls `acquire_poll_lock` while another worker's sweep is as old as a key gets. -/
def InTime (s : (pollers room).State) (f : Sched (pollers room)) (n : Nat) : Prop :=
  ∀ pid workerId acquired, event (conf s f n) (f n) = some ⟨pid, SqsOp.acquirePollLock workerId, .ok acquired⟩ →
    ∀ q m, Sweeping s f n q m → q ≠ pid → (conf s f n).w.st.now < (conf s f m).w.st.now + pollLockTtl

theorem Acquired.last {n q m : Nat} (h : Acquired s f (n + 1) q m) : m = n ∨ Acquired s f n q m := by
  by_cases e : m = n
  · exact Or.inl e
  · have := h.before
    exact Or.inr ⟨by omega, h.acquire, fun k hk hkn => h.since k hk (by omega)⟩

/-- What a worker acquired is in the key until the key expires. -/
theorem held (hs : (pollers room).init s) {n q m : Nat} (h : Acquired s f n q m) :
    (conf s f n).w.st.lock = some (q, (conf s f m).w.st.now + pollLockTtl) ∨
      (conf s f m).w.st.now + pollLockTtl ≤ (conf s f n).w.st.now := by
  induction n with
  | zero => exact absurd h.before (by omega)
  | succ n ih =>
    have hstep : conf s f (n + 1) = step (conf s f n) (f n) := rfl
    have hl := lockStep (conf_reach hs fun _ _ _ _ => trivial : Reach any (conf s f n)) (f n)
    rcases h.last with rfl | hprev
    · obtain ⟨w, hacq⟩ := h.acquire
      cases hl with
      | kept _ _ hno => exact absurd hacq (hno _ _)
      | acquired pid he _ hst =>
        rw [he] at hacq
        cases hacq
        exact Or.inl (by rw [hstep, hst])
      | released pid he => rw [he] at hacq; cases hacq
    · cases hl with
      | kept hlock hnow =>
        rw [hstep, hlock]
        exact (ih hprev).imp_right fun h => Nat.le_trans h hnow
      | acquired pid he hfree hst =>
        rw [hstep, hst]
        refine Or.inr ?_
        rcases ih hprev with hlock | hlt
        · by_cases hlive : (conf s f n).w.st.now < (conf s f m).w.st.now + pollLockTtl
          · rw [holder_live hlock hlive] at hfree; cases hfree
          · exact Nat.le_of_not_lt hlive
        · exact hlt
      | released pid he hmine hst =>
        rw [hstep, hst]
        rcases ih hprev with hlock | hlt
        · obtain ⟨_, hmine, _⟩ := holder_some hmine
          rw [hlock] at hmine
          cases hmine
          exact absurd (h.since n hprev.before (by omega) _ he rfl) id
        · exact Or.inr hlt

theorem Sweeping.back (hs : (pollers room).init s) {n q m : Nat} (h : Sweeping s f (n + 1) q m) (hm : m < n) :
    Sweeping s f n q m := by
  obtain ⟨w, hacq⟩ := h.1.acquire
  have hf := fresh (conf_reach hs fun _ _ _ _ => trivial : Reach any (conf s f n))
  refine ⟨h.1.last.resolve_left (by omega), ?_⟩
  exact step_alive _ _ (hf.hist _ (conf_event hm hacq)) h.2

/-- A worker that has just acquired the lock is sweeping. -/
theorem sweeping_acquired {n pid workerId : Nat}
    (he : event (conf s f n) (f n) = some ⟨pid, SqsOp.acquirePollLock workerId, .ok true⟩) :
    Sweeping s f (n + 1) pid n := by
  refine ⟨⟨by omega, ⟨workerId, he⟩, fun k hk hkn => by omega⟩, ?_⟩
  obtain ⟨k, st, _, _, hs⟩ := event_some he
  show (step (conf s f n) (f n)).procs pid ≠ none
  rw [hs]
  simp

theorem sweeping_other {n pid q m : Nat} {o : SqsOp} {r : Except Exc o.Ret}
    (he : event (conf s f n) (f n) = some ⟨pid, o, r⟩)
    (h : Sweeping s f n q m) (hne : q ≠ pid) : Sweeping s f (n + 1) q m := by
  have hm := h.1.before
  refine ⟨⟨by omega, h.1.acquire, fun k hk hkn e hek hq => ?_⟩, ?_⟩
  · by_cases hkn' : k = n
    · subst hkn'
      rw [he] at hek
      cases hek
      exact absurd hq.symm hne
    · exact h.1.since k hk (by omega) e hek hq
  · obtain ⟨k, st, _, _, hs⟩ := event_some he
    show (step (conf s f n) (f n)).procs q ≠ none
    rw [hs]
    simpa only [upd_ne _ _ hne] using h.2

/-- While sweeps have been exclusive, a live key is that of whoever is sweeping. -/
theorem only_holder (hs : (pollers room).init s) {n : Nat} (hex : ∀ k ≤ n, Exclusive s f k) {q m r expires : Nat}
    (h : Sweeping s f n q m) (hlock : (conf s f n).w.st.lock = some (r, expires))
    (hlive : (conf s f n).w.st.now < expires) :
    q = r ∧ expires = (conf s f m).w.st.now + pollLockTtl := by
  induction n with
  | zero => exact absurd h.1.before (by omega)
  | succ n ih =>
    have hstep : conf s f (n + 1) = step (conf s f n) (f n) := rfl
    rw [hstep] at hlock hlive
    have hbefore := h.1.before
    cases lockStep (conf_reach hs fun _ _ _ _ => trivial : Reach any (conf s f n)) (f n) with
    | kept hsame hnow hno =>
      have hm : m < n := by
        rcases h.1.last with rfl | hprev
        · obtain ⟨w, hacq⟩ := h.1.acquire
          exact absurd hacq (hno _ _)
        · exact hprev.before
      rw [hsame] at hlock
      exact ih (fun k hk => hex k (by omega)) (h.back hs hm) hlock (by omega)
    | acquired pid he _ hst =>
      rw [hst] at hlock
      cases hlock
      have hpid := hex (n + 1) (Nat.le_refl _) q m r n h (sweeping_acquired he)
      subst hpid
      refine ⟨rfl, ?_⟩
      rcases h.1.last with rfl | hprev
      · rfl
      · exact absurd (h.1.since n hprev.before (by omega) _ he rfl) id
    | released pid he _ hst => rw [hst] at hlock; cases hlock

theorem inTime_of_exclusive (hs : (pollers room).init s) {n : Nat} (hex : ∀ k ≤ n + 1, Exclusive s f k) :
    InTime s f n := by
  intro pid workerId acquired he q m hq hne
  cases acquired with
  | true => exact absurd (hex (n + 1) (Nat.le_refl _) q m pid n (sweeping_other he hq hne) (sweeping_acquired he)) hne
  | false =>
    have hd := event_did he
    generalize (step (conf s f n) (f n)).w.st = s' at hd
    cases hd with
    | refused hheld =>
      obtain ⟨expires, hlock, hlive⟩ := holder_some hheld
      obtain ⟨_, rfl⟩ := only_holder hs (fun k hk => hex k (by omega)) hq hlock hlive
      exact hlive
    | answered hout => cases hout

theorem exclusive_step (hs : (pollers room).init s) {n : Nat} (hex : Exclusive s f n) (ht : InTime s f n) :
    Exclusive s f (n + 1) := by
  -- whoever acquires at step `n` finds nobody else in a sweep
  have hnew : ∀ q m q', Sweeping s f (n + 1) q m → m < n → Sweeping s f (n + 1) q' n → q = q' := by
    intro q m q' hq hm hq'
    have hprev := hq.back hs hm
    obtain ⟨w, he⟩ := hq'.1.acquire
    refine Classical.byContradiction fun hne => ?_
    have hlt := ht q' w true he q m hprev hne
    have hd := event_did he
    generalize (step (conf s f n) (f n)).w.st = s' at hd
    cases hd with
    | acquired hfree =>
      rcases held hs hprev.1 with hlock | hge
      · rw [holder_live hlock hlt] at hfree; cases hfree
      · omega
    | answered hout => cases hout
  intro q m q' m' hq hq'
  have hm := hq.1.before
  have hm' := hq'.1.before
  by_cases e : m < n
  · by_cases e' : m' < n
    · exact hex q m q' m' (hq.back hs e) (hq'.back hs e')
    · have : m' = n := by omega
      subst this
      exact hnew q m q' hq e hq'
  · have : m = n := by omega
    subst this
    by_cases e' : m' < m
    · exact (hnew q' m' q hq' e' hq).symm
    · have : m' = m := by omega
      subst this
      obtain ⟨w, he⟩ := hq.1.acquire
      obtain ⟨w', he'⟩ := hq'.1.acquire
      rw [he] at he'
      cases he'
      rfl

/-- Whatever the workers do, a release leaves the value of another worker alone. -/
theorem release_own (hs : (pollers room).init s) {n pid workerId q expires : Nat} {r : Except Exc Bool}
    (he : event (conf s f n) (f n) = some ⟨pid, SqsOp.releasePollLock workerId, r⟩)
    (hlock : (conf s f n).w.st.lock = some (q, expires)) (hne : q ≠ pid) :
    (conf s f (n + 1)).w.st.lock = some (q, expires) := by
  show (step (conf s f n) (f n)).w.st.lock = _
  cases lockStep (conf_reach hs fun _ _ _ _ => trivial : Reach any (conf s f n)) (f n) with
  | kept hsame => rw [hsame, hlock]
  | acquired _ he' => rw [he] at he'; cases he'
  | released _ he' hmine =>
    rw [he] at he'
    cases he'
    obtain ⟨_, hmine, _⟩ := holder_some hmine
    rw [hlock] at hmine
    cases hmine
    exact absurd rfl hne

/-- In every run and up to every moment, sweeps exclude each other exactly when no worker
    calls `acquire_poll_lock` while another is a time to live or more into its sweep; and
    no release ever removes the value of another worker. -/
theorem sweep_exclusive_iff (hs : (pollers room).init s) (f : Sched (pollers room)) (n : Nat) :
    ((∀ k ≤ n, Exclusive s f k) ↔ ∀ k < n, InTime s f k) ∧
      ∀ k pid workerId r q expires, event (conf s f k) (f k) = some ⟨pid, SqsOp.releasePollLock workerId, r⟩ →
        (conf s f k).w.st.lock = some (q, expires) → q ≠ pid → (conf s f (k + 1)).w.st.lock = some (q, expires) := by
  refine ⟨⟨fun hex k hk => inTime_of_exclusive hs fun j hj => hex j (by omega), fun ht => ?_⟩,
    fun k pid workerId r q expires he hlock hne => release_own hs he hlock hne⟩
  intro k hk
  induction k with
  | zero => intro q m q' m' hq; exact absurd hq.1.before (by omega)
  | succ k ih => exact exclusive_step hs (ih (by omega)) (ht k (by omega))

/-- The first worker's sweep is over before the second starts. -/
def oneByOne : Sched (pollers 9) := sched
  [.start (), .run 0 (Store.answer 0 [] []), .run 0 (Store.answer 0 [] []), .run 0 (Store.answer 0 [] []),
    .start (), .run 1 (Store.answer 1 [] [])]
  (.env (0 : Nat))

theorem sweep_exclusive_oneByOne : Exclusive idleStore oneByOne 6 := by
  refine (@sweep_exclusive_iff 9 idleStore ⟨rfl, rfl, rfl⟩ oneByOne 6).1.mpr (fun k hk => ?_) 6 (Nat.le_refl 6)
  intro pid w acquired he q m hq hne
  obtain ⟨w', ha⟩ := hq.1.acquire
  have hm := hq.1.before
  match k with
  | 0 | 2 | 3 | 4 => cases he
  | 1 =>
    match m with
    | 0 => cases ha
  | 5 =>
    match m with
    | 0 | 2 | 3 | 4 => cases ha
    | 1 =>
      cases ha
      exact absurd (hq.1.since 3 (by omega) (by omega) _ rfl rfl) id

/-- The first worker has swept for a minute when the second starts. -/
def overlapping : Sched (pollers 9) := sched
  [.start (), .start (), .run 0 (Store.answer 0 [] []), .env (60000 : Nat), .run 1 (Store.answer 1 [] [])]
  (.env (0 : Nat))

theorem sweeps_overlap : (pollers 9).init idleStore ∧ ¬ Exclusive idleStore overlapping 5 := by
  refine ⟨⟨rfl, rfl, rfl⟩, fun h => ?_⟩
  have h0 : Sweeping idleStore overlapping 5 0 2 := by
    refine ⟨⟨by omega, ⟨0, rfl⟩, fun k hk hkn e he hq => ?_⟩, fun h => by cases h⟩
    match k with
    | 3 => cases he
    | 4 => cases he; cases hq
  have he : event (conf idleStore overlapping 4) (overlapping 4) = some ⟨1, SqsOp.acquirePollLock 1, .ok true⟩ := rfl
  have h1 : Sweeping idleStore overlapping 5 1 4 := sweeping_acquired he
  exact absurd (h 0 2 1 4 h0 h1) (by decide)

end Connect.Sqs
