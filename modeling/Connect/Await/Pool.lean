/-
  Connect.Await.Pool — a pool of coroutines over one shared state.

  A `System` says what every operation does to the shared state (`exec`: the state after
  an operation that was answered `r`, or `none` when it cannot be answered so), what the
  outside may do (`env`), and the code of each kind of task. A step runs one awaited
  operation of one process, crashes a process, starts a task or lets the outside move; a
  choice that is not possible leaves the configuration as it is. So one operation is the
  unit of interleaving, and a process can stop for ever between any two of them.

  `hist` is the history of answered operations, newest first. `Reach good` are the
  configurations of the runs whose every operation satisfies `good` in the configuration
  it is performed in; `Reach` of `any` are all of them. A `Sched` is an endless list of
  choices (impossible ones are idle), so a finite run is one of its prefixes.
-/

import Connect.Await.Prog

namespace Connect.Await

def upd {α : Type} (f : Nat → α) (i : Nat) (v : α) : Nat → α := fun j => if j = i then v else f j

@[simp] theorem upd_same {α : Type} (f : Nat → α) (i : Nat) (v : α) : upd f i v i = v := by simp [upd]
@[simp] theorem upd_ne {α : Type} (f : Nat → α) {i j : Nat} (v : α) (h : j ≠ i) : upd f i v j = f j := by
  simp [upd, h]

structure Event (S : Sig) (ε : Type) where
  pid : Nat
  op : S.Op
  ans : Except ε (S.Ret op)

structure System (S : Sig) (ε α : Type) where
  State : Type
  Env : Type
  Task : Type
  init : State → Prop
  exec : Nat → State → (o : S.Op) → Except ε (S.Ret o) → Option State
  env : State → Env → Option State
  starts : State → Task → Bool
  code : Nat → Task → Prog S ε α

variable {S : Sig} {ε α : Type}

/-- The shared state with the history of answered operations, newest first. -/
structure World (M : System S ε α) where
  st : M.State
  hist : List (Event S ε)

structure Config (M : System S ε α) where
  w : World M
  next : Nat
  /-- The task a process was started with. -/
  task : Nat → Option M.Task
  /-- What is left of a process; `none` before its start and after its crash. -/
  procs : Nat → Option (Prog S ε α)

inductive Choice (M : System S ε α) where
  | run (pid : Nat) (ans : M.State → (o : S.Op) → Except ε (S.Ret o))
  | crash (pid : Nat)
  | start (t : M.Task)
  | env (e : M.Env)

variable {M : System S ε α}

def World.after (w : World M) (pid : Nat) (o : S.Op) (r : Except ε (S.Ret o)) (s : M.State) : World M :=
  ⟨s, ⟨pid, o, r⟩ :: w.hist⟩

def start (s : M.State) : Config M := ⟨⟨s, []⟩, 0, fun _ => none, fun _ => none⟩

def step (c : Config M) : Choice M → Config M
  | .run pid ans =>
    match c.procs pid with
    | some (.op o k) =>
      match M.exec pid c.w.st o (ans c.w.st o) with
      | some s => { c with w := c.w.after pid o (ans c.w.st o) s, procs := upd c.procs pid (some (k (ans c.w.st o))) }
      | none => c
    | _ => c
  | .crash pid => { c with procs := upd c.procs pid none }
  | .start t =>
    if M.starts c.w.st t then
      { c with next := c.next + 1, task := upd c.task c.next (some t),
               procs := upd c.procs c.next (some (M.code c.next t)) }
    else c
  | .env e =>
    match M.env c.w.st e with
    | some s => { c with w := { c.w with st := s } }
    | none => c

/-- The operation a choice performs, with its answer. -/
def event (c : Config M) : Choice M → Option (Event S ε)
  | .run pid ans =>
    match c.procs pid with
    | some (.op o _) => if (M.exec pid c.w.st o (ans c.w.st o)).isSome then some ⟨pid, o, ans c.w.st o⟩ else none
    | _ => none
  | _ => none

inductive Reach (good : Config M → Event S ε → Prop) : Config M → Prop
  | init (s : M.State) : M.init s → Reach good (start s)
  | step {c : Config M} (ch : Choice M) : Reach good c → (∀ e, event c ch = some e → good c e) →
      Reach good (step c ch)

def any : Config M → Event S ε → Prop := fun _ _ => True

/-- What a choice can do. -/
inductive Moved (c : Config M) (ch : Choice M) : Config M → Prop
  | idle : event c ch = none → Moved c ch c
  | ran {pid : Nat} {o : S.Op} {k : Except ε (S.Ret o) → Prog S ε α} {r : Except ε (S.Ret o)} {s : M.State} :
      c.procs pid = some (.op o k) → M.exec pid c.w.st o r = some s → event c ch = some ⟨pid, o, r⟩ →
      Moved c ch { c with w := c.w.after pid o r s, procs := upd c.procs pid (some (k r)) }
  | crashed (pid : Nat) : event c ch = none → Moved c ch { c with procs := upd c.procs pid none }
  | started (t : M.Task) : event c ch = none → M.starts c.w.st t = true →
      Moved c ch { c with next := c.next + 1, task := upd c.task c.next (some t),
                          procs := upd c.procs c.next (some (M.code c.next t)) }
  | moved {e : M.Env} {s : M.State} : event c ch = none → M.env c.w.st e = some s →
      Moved c ch { c with w := { c.w with st := s } }

theorem step_moved (c : Config M) (ch : Choice M) : Moved c ch (step c ch) := by
  cases ch with
  | run pid ans =>
    rcases hp : c.procs pid with _ | _ | _ | ⟨o, k⟩
    · simpa only [step, hp] using Moved.idle (by simp [event, hp])
    · simpa only [step, hp] using Moved.idle (by simp [event, hp])
    · simpa only [step, hp] using Moved.idle (by simp [event, hp])
    · rcases hx : M.exec pid c.w.st o (ans c.w.st o) with _ | s
      · simpa only [step, hp, hx] using Moved.idle (by simp [event, hp, hx])
      · simpa only [step, hp, hx] using Moved.ran hp hx (by simp [event, hp, hx])
  | crash pid => exact .crashed pid rfl
  | start t =>
    by_cases h : M.starts c.w.st t = true
    · simpa only [step, h, if_true] using Moved.started t rfl h
    · simpa only [step, if_neg h] using Moved.idle rfl
  | env e =>
    rcases hx : M.env c.w.st e with _ | s
    · simpa only [step, hx] using Moved.idle rfl
    · simpa only [step, hx] using Moved.moved rfl hx

/-- The operation a choice performs is what the step does. -/
theorem event_some {c : Config M} {ch : Choice M} {e : Event S ε} (h : event c ch = some e) :
    ∃ k s, c.procs e.pid = some (.op e.op k) ∧ M.exec e.pid c.w.st e.op e.ans = some s ∧
      step c ch = { c with w := c.w.after e.pid e.op e.ans s, procs := upd c.procs e.pid (some (k e.ans)) } := by
  have hm := step_moved c ch
  revert hm
  generalize step c ch = c'
  intro hm
  cases hm with
  | @ran pid o k r s hp hx he =>
    rw [he] at h
    cases h
    exact ⟨k, s, hp, hx, rfl⟩
  | idle he => rw [he] at h; cases h
  | crashed pid he => rw [he] at h; cases h
  | started t he => rw [he] at h; cases h
  | moved he => rw [he] at h; cases h

/-- A process that performs no operation does nothing. -/
theorem run_idle {c : Config M} {pid : Nat} {ans : M.State → (o : S.Op) → Except ε (S.Ret o)}
    (h : event c (.run pid ans) = none) : step c (.run pid ans) = c := by
  rcases hp : c.procs pid with _ | _ | _ | ⟨o, k⟩
  · simp only [step, hp]
  · simp only [step, hp]
  · simp only [step, hp]
  · rcases hx : M.exec pid c.w.st o (ans c.w.st o) with _ | s
    · simp only [step, hp, hx]
    · simp [event, hp, hx] at h

theorem run_step {c : Config M} {pid : Nat} {ans : M.State → (o : S.Op) → Except ε (S.Ret o)} {o : S.Op}
    {k : Except ε (S.Ret o) → Prog S ε α} {s : M.State} (hp : c.procs pid = some (.op o k))
    (hx : M.exec pid c.w.st o (ans c.w.st o) = some s) :
    step c (.run pid ans) =
      { c with w := c.w.after pid o (ans c.w.st o) s, procs := upd c.procs pid (some (k (ans c.w.st o))) } := by
  simp only [step, hp, hx]

theorem start_step {c : Config M} {t : M.Task} (h : M.starts c.w.st t = true) :
    step c (.start t) = { c with next := c.next + 1, task := upd c.task c.next (some t),
                                 procs := upd c.procs c.next (some (M.code c.next t)) } := if_pos h

theorem start_idle {c : Config M} {t : M.Task} (h : ¬ M.starts c.w.st t = true) : step c (.start t) = c := if_neg h

theorem env_step {c : Config M} {e : M.Env} {s : M.State} (h : M.env c.w.st e = some s) :
    step c (.env e) = { c with w := { c.w with st := s } } := by simp only [step, h]

theorem env_idle {c : Config M} {e : M.Env} (h : M.env c.w.st e = none) : step c (.env e) = c := by
  simp only [step, h]

theorem step_hist (c : Config M) (ch : Choice M) :
    (step c ch).w.hist = (event c ch).toList ++ c.w.hist := by
  have hm := step_moved c ch
  revert hm
  generalize step c ch = c'
  intro hm
  cases hm with
  | ran _ _ he => rw [he]; rfl
  | idle he => rw [he]; rfl
  | crashed pid he => rw [he]; rfl
  | started t he => rw [he]; rfl
  | moved he => rw [he]; rfl

/-! ## Runs -/

abbrev Sched (M : System S ε α) := Nat → Choice M

/-- The choices `chs`, then `rest` for ever. -/
def sched (chs : List (Choice M)) (rest : Choice M) : Sched M := fun n => chs.getD n rest

/-- The configuration after the first `n` choices. -/
def conf (s : M.State) (f : Sched M) : Nat → Config M
  | 0 => start s
  | n + 1 => step (conf s f n) (f n)

theorem sched_get {chs : List (Choice M)} {rest : Choice M} {n : Nat} (h : n < chs.length) :
    sched chs rest n = chs[n] := by
  simp [sched, List.getD, h]

theorem sched_rest {chs : List (Choice M)} {rest : Choice M} {n : Nat} (h : chs.length ≤ n) :
    sched chs rest n = rest := by
  simp [sched, List.getD, List.getElem?_eq_none h]

/-- Every choice of a finite run is `good` in the configuration it is made in. -/
def passes (good : Config M → Choice M → Bool) (c : Config M) : List (Choice M) → Bool
  | [] => true
  | ch :: chs => good c ch && passes good (step c ch) chs

theorem passes_conf {good : Config M → Choice M → Bool} {s : M.State} {chs : List (Choice M)} {rest : Choice M}
    (h : passes good (start s) chs = true) {m : Nat} (hm : m < chs.length) :
    good (conf s (sched chs rest) m) (sched chs rest m) = true := by
  have hleft : ∀ m ≤ chs.length, passes good (conf s (sched chs rest) m) (chs.drop m) = true := by
    intro m
    induction m with
    | zero => exact fun _ => h
    | succ m ih =>
      intro hlt
      have hp := ih (Nat.le_of_lt hlt)
      rw [List.drop_eq_getElem_cons hlt, passes, Bool.and_eq_true, ← (sched_get hlt : sched chs rest _ = _)] at hp
      exact hp.2
  have hp := hleft m (Nat.le_of_lt hm)
  rw [List.drop_eq_getElem_cons hm, passes, Bool.and_eq_true, ← (sched_get hm : sched chs rest _ = _)] at hp
  exact hp.1

theorem conf_reach {good : Config M → Event S ε → Prop} {s : M.State} (h : M.init s) {f : Sched M} {n : Nat}
    (hg : ∀ m < n, ∀ e, event (conf s f m) (f m) = some e → good (conf s f m) e) : Reach good (conf s f n) := by
  induction n with
  | zero => exact .init s h
  | succ n ih => exact .step _ (ih fun m hm => hg m (by omega)) (hg n (by omega))

/-- A run only adds to its history. -/
theorem conf_suffix {s : M.State} {f : Sched M} {m n : Nat} (hmn : m ≤ n) :
    (conf s f m).w.hist <:+ (conf s f n).w.hist := by
  induction n with
  | zero => cases Nat.le_zero.mp hmn; exact List.suffix_refl _
  | succ n ih =>
    rcases Nat.lt_or_ge m (n + 1) with hlt | hge
    · refine (ih (by omega)).trans ?_
      show (conf s f n).w.hist <:+ (step (conf s f n) (f n)).w.hist
      rw [step_hist]
      exact List.suffix_append _ _
    · have : m = n + 1 := by omega
      subst this
      exact List.suffix_refl _

theorem conf_hist {s : M.State} {f : Sched M} {m n : Nat} (hmn : m ≤ n) :
    ∀ e ∈ (conf s f m).w.hist, e ∈ (conf s f n).w.hist := fun _ he => (conf_suffix hmn).mem he

/-- What happened at step `m` of a run is in its history at any later moment. -/
theorem conf_event {s : M.State} {f : Sched M} {m n : Nat} (hmn : m < n) {e : Event S ε}
    (he : event (conf s f m) (f m) = some e) : e ∈ (conf s f n).w.hist := by
  refine conf_hist (Nat.succ_le_of_lt hmn) e ?_
  show e ∈ (step (conf s f m) (f m)).w.hist
  rw [step_hist, he]
  exact List.mem_cons_self

/-! ## Process numbers -/

/-- A process that was not started has no code and no history. -/
structure Fresh (c : Config M) : Prop where
  procs : ∀ pid, c.next ≤ pid → c.procs pid = none
  task : ∀ pid, c.next ≤ pid → c.task pid = none
  hist : ∀ e ∈ c.w.hist, e.pid < c.next

theorem step_fresh {c : Config M} (h : Fresh c) (ch : Choice M) : Fresh (step c ch) := by
  have hm := step_moved c ch
  revert hm
  generalize step c ch = c'
  intro hm
  cases hm with
  | idle => exact h
  | @ran pid o k r s hp hx =>
    have hlt : pid < c.next := by
      rcases Nat.lt_or_ge pid c.next with hlt | hge
      · exact hlt
      · rw [h.procs pid hge] at hp; cases hp
    refine ⟨fun p hp' => ?_, h.task, fun e he => ?_⟩
    · show upd c.procs pid _ p = none
      rw [upd_ne _ _ (by have : c.next ≤ p := hp'; omega)]
      exact h.procs p hp'
    · rcases List.mem_cons.mp he with rfl | he
      · exact hlt
      · exact h.hist e he
  | crashed pid =>
    refine ⟨fun p hp => ?_, h.task, h.hist⟩
    show upd c.procs pid none p = none
    by_cases e : p = pid
    · simp [e]
    · rw [upd_ne _ _ e]; exact h.procs p hp
  | started t _ _ =>
    refine ⟨fun p hp => ?_, fun p hp => ?_, fun e he => Nat.lt_succ_of_lt (h.hist e he)⟩
    · have : c.next + 1 ≤ p := hp
      show upd c.procs c.next _ p = none
      rw [upd_ne _ _ (by omega)]; exact h.procs p (by omega)
    · have : c.next + 1 ≤ p := hp
      show upd c.task c.next _ p = none
      rw [upd_ne _ _ (by omega)]; exact h.task p (by omega)
  | moved _ _ => exact ⟨h.procs, h.task, h.hist⟩

theorem fresh {good : Config M → Event S ε → Prop} {c : Config M} (h : Reach good c) : Fresh c := by
  induction h with
  | init s _ => exact ⟨fun _ _ => rfl, fun _ _ => rfl, fun e he => by cases he⟩
  | step ch _ _ ih => exact step_fresh ih ch

/-- A process that was started before a step and is alive after it was alive before it. -/
theorem step_alive (c : Config M) (ch : Choice M) {pid : Nat} (hlt : pid < c.next)
    (h : (step c ch).procs pid ≠ none) : c.procs pid ≠ none := by
  have hm := step_moved c ch
  revert hm h
  generalize step c ch = c'
  intro h hm
  cases hm with
  | idle => exact h
  | @ran q o k r s hp hx =>
    by_cases e : pid = q
    · subst e; simp [hp]
    · simpa only [upd_ne _ _ e] using h
  | crashed q =>
    by_cases e : pid = q
    · subst e; simp at h
    · simpa only [upd_ne _ _ e] using h
  | started t =>
    have e : pid ≠ c.next := by omega
    simpa only [upd_ne _ _ e] using h
  | moved => exact h

/-! ## A process that is served ends -/

/-- What the others do does not touch a process. -/
theorem step_waits {c : Config M} (hf : Fresh c) {ch : Choice M} {pid : Nat} {p : Prog S ε α}
    (hp : c.procs pid = some p)
    (hcrash : ch ≠ .crash pid) (he : ∀ e, event c ch = some e → e.pid ≠ pid) : (step c ch).procs pid = some p := by
  cases ch with
  | run q ans =>
    cases hev : event c (.run q ans) with
    | none => rw [run_idle hev, hp]
    | some e =>
      obtain ⟨k, s, _, _, hs⟩ := event_some hev
      rw [hs]
      exact (upd_ne _ _ (he e hev).symm).trans hp
  | crash q =>
    have hq : pid ≠ q := fun h => hcrash (by rw [h])
    exact (upd_ne _ _ hq).trans hp
  | start t =>
    have hlt : pid ≠ c.next := by
      intro h
      rw [hf.procs pid (by omega)] at hp
      cases hp
    by_cases h : M.starts c.w.st t = true
    · rw [start_step h]
      exact (upd_ne _ _ hlt).trans hp
    · rw [start_idle h, hp]
  | env e =>
    cases hx : M.env c.w.st e with
    | none => rw [env_idle hx, hp]
    | some s =>
      rw [env_step hx]
      exact hp

section Served

variable {s : M.State} {f : Sched M} {pid : Nat}

/-- A process keeps its task. -/
theorem task_stays (hs : M.init s) {n m : Nat} (hnm : n ≤ m) {t : M.Task} (ht : (conf s f n).task pid = some t) :
    (conf s f m).task pid = some t := by
  induction m with
  | zero =>
    cases Nat.le_zero.mp hnm
    exact ht
  | succ m ih =>
    rcases Nat.lt_or_ge n (m + 1) with hlt | hge
    · have hm := ih (by omega)
      have hf : Fresh (conf s f m) := fresh (@conf_reach _ _ _ _ any s hs f m fun _ _ _ _ => trivial)
      have hmoved := step_moved (conf s f m) (f m)
      show (step _ _).task pid = _
      revert hmoved
      generalize step (conf s f m) (f m) = c'
      intro hmoved
      cases hmoved with
      | started t' =>
        have hne : pid ≠ (conf s f m).next := by
          intro h
          rw [hf.task pid (by omega)] at hm
          cases hm
        exact (upd_ne _ _ hne).trans hm
      | _ => exact hm
    · cases Nat.le_antisymm hnm hge
      exact ht

/-- Where nothing crashes, a process that was started is there. -/
theorem started_alive (hcrash : ∀ pid n, f n ≠ .crash pid) {n : Nat} {t : M.Task}
    (ht : (conf s f n).task pid = some t) :
    ∃ p, (conf s f n).procs pid = some p := by
  induction n with
  | zero => cases ht
  | succ n ih =>
    change (step (conf s f n) (f n)).task pid = some t at ht
    show ∃ p, (step (conf s f n) (f n)).procs pid = some p
    have hn := fun q => hcrash q n
    generalize f n = ch at hn ht
    cases ch with
    | run q ans =>
      cases hev : event (conf s f n) (.run q ans) with
      | none =>
        rw [run_idle hev] at ht ⊢
        exact ih ht
      | some e =>
        obtain ⟨k, s', _, _, hs⟩ := event_some hev
        rw [hs] at ht ⊢
        by_cases h : pid = e.pid
        · exact ⟨k e.ans, by rw [h]; exact upd_same _ _ _⟩
        · obtain ⟨p, hp⟩ := ih ht
          exact ⟨p, (upd_ne _ _ h).trans hp⟩
    | crash q => exact absurd rfl (hn q)
    | start t' =>
      by_cases hst : M.starts (conf s f n).w.st t' = true
      · rw [start_step hst] at ht ⊢
        by_cases h : pid = (conf s f n).next
        · exact ⟨_, by rw [h]; exact upd_same _ _ _⟩
        · obtain ⟨p, hp⟩ := ih ((upd_ne _ _ h).symm.trans ht)
          exact ⟨p, (upd_ne _ _ h).trans hp⟩
      · rw [start_idle hst] at ht ⊢
        exact ih ht
    | env e =>
      cases hx : M.env (conf s f n).w.st e with
      | none =>
        rw [env_idle hx] at ht ⊢
        exact ih ht
      | some s' =>
        rw [env_step hx] at ht ⊢
        exact ih ht

/-- A process that has ended stays as it is. -/
theorem ended_stays (hs : M.init s) (hcrash : ∀ n, f n ≠ .crash pid) {n m : Nat} (hnm : n ≤ m) {p : Prog S ε α}
    (hp : (conf s f n).procs pid = some p) (hend : ∀ o k, p ≠ .op o k) : (conf s f m).procs pid = some p := by
  induction m with
  | zero =>
    cases Nat.le_zero.mp hnm
    exact hp
  | succ m ih =>
    rcases Nat.lt_or_ge n (m + 1) with hlt | hge
    · have hm := ih (by omega)
      have hr : Reach any (conf s f m) := conf_reach hs fun _ _ _ _ => trivial
      refine step_waits (fresh hr) hm (hcrash m) fun e he hpid => ?_
      obtain ⟨k, _, hop, _, _⟩ := event_some he
      rw [hpid, hm] at hop
      exact hend _ _ (Option.some.inj hop)
    · cases Nat.le_antisymm hnm hge
      exact hp

/-- The next operation of a process that will perform one. -/
theorem next_operation (hs : M.init s) (hcrash : ∀ n, f n ≠ .crash pid) {o : S.Op}
    {k : Except ε (S.Ret o) → Prog S ε α} {d n : Nat} (hp : (conf s f n).procs pid = some (.op o k))
    (he : ∃ e, event (conf s f (n + d)) (f (n + d)) = some e ∧ e.pid = pid) :
    ∃ m, n ≤ m ∧ ∃ r, (conf s f (m + 1)).procs pid = some (k r) := by
  have hmoves : ∀ {n : Nat} {e : Event S ε}, (conf s f n).procs pid = some (.op o k) →
      event (conf s f n) (f n) = some e → e.pid = pid →
      ∃ r, (conf s f (n + 1)).procs pid = some (k r) := by
    intro n e hp he hpid
    obtain ⟨k', s', hop, _, hstep⟩ := event_some he
    rw [hpid, hp] at hop
    obtain ⟨pid', o', r⟩ := e
    cases hop
    refine ⟨r, ?_⟩
    show (step _ _).procs pid = _
    rw [hstep, hpid]
    exact upd_same _ _ _
  induction d generalizing n with
  | zero =>
    obtain ⟨e, he, hpid⟩ := he
    exact ⟨n, Nat.le_refl n, hmoves hp he hpid⟩
  | succ d ih =>
    by_cases hnow : ∃ e, event (conf s f n) (f n) = some e ∧ e.pid = pid
    · obtain ⟨e, he, hpid⟩ := hnow
      exact ⟨n, Nat.le_refl n, hmoves hp he hpid⟩
    · have hr : Reach any (conf s f n) := conf_reach hs fun _ _ _ _ => trivial
      have hwait : (conf s f (n + 1)).procs pid = some (.op o k) :=
        step_waits (fresh hr) hp (hcrash n) fun e he hpid => hnow ⟨e, he, hpid⟩
      obtain ⟨m, hm, hmr⟩ := ih hwait (by rwa [Nat.add_right_comm, Nat.add_assoc])
      exact ⟨m, by omega, hmr⟩

/-- A process that performs its next operation as long as it has one comes to its end. -/
theorem served_ends (hs : M.init s) (hcrash : ∀ n, f n ≠ .crash pid)
    (hserved : ∀ n o k, (conf s f n).procs pid = some (.op o k) →
      ∃ m, n ≤ m ∧ ∃ e, event (conf s f m) (f m) = some e ∧ e.pid = pid)
    {b n : Nat} {p : Prog S ε α} (hp : (conf s f n).procs pid = some p) (hb : p.Within b) :
    ∃ m, n ≤ m ∧ ∃ q, (conf s f m).procs pid = some q ∧ ∀ o k, q ≠ .op o k := by
  induction b generalizing n p with
  | zero =>
    cases p with
    | ret a => exact ⟨n, Nat.le_refl n, _, hp, nofun⟩
    | raise e => exact ⟨n, Nat.le_refl n, _, hp, nofun⟩
    | op o k =>
      obtain ⟨_, h0, _⟩ := hb
      cases h0
  | succ b ih =>
    cases p with
    | ret a => exact ⟨n, Nat.le_refl n, _, hp, nofun⟩
    | raise e => exact ⟨n, Nat.le_refl n, _, hp, nofun⟩
    | op o k =>
      obtain ⟨b', hb', hk⟩ := hb
      cases hb'
      obtain ⟨m, hnm, he⟩ := hserved n o k hp
      obtain ⟨d, rfl⟩ := Nat.exists_eq_add_of_le hnm
      obtain ⟨m, hm, r, hr⟩ := next_operation hs hcrash hp he
      obtain ⟨m', hm', hq⟩ := ih hr (hk r)
      exact ⟨m', by omega, hq⟩

end Served

/-! ## Rules -/

/-- What the code of a task satisfies and every answer keeps, its processes satisfy. -/
theorem procs_form {good : Config M → Event S ε → Prop} (F : Nat → M.Task → Prog S ε α → Prop)
    (hcode : ∀ pid t, F pid t (M.code pid t)) (hop : ∀ pid t o k r, F pid t (.op o k) → F pid t (k r)) {c : Config M}
    (h : Reach good c) : ∀ pid p, c.procs pid = some p → ∃ t, c.task pid = some t ∧ F pid t p := by
  induction h with
  | init s _ => intro pid p hp; cases hp
  | @step c ch _ _ ih =>
    have hm := step_moved c ch
    revert hm
    generalize step c ch = c'
    intro hm q p hp
    cases hm with
    | idle => exact ih q p hp
    | @ran pid o k r s hpid hx =>
      by_cases e : q = pid
      · subst e
        simp only [upd_same, Option.some.injEq] at hp
        subst hp
        obtain ⟨t, ht, hF⟩ := ih q _ hpid
        exact ⟨t, ht, hop q t o k r hF⟩
      · simp only [upd_ne _ _ e] at hp; exact ih q p hp
    | crashed pid =>
      by_cases e : q = pid
      · subst e; simp at hp
      · simp only [upd_ne _ _ e] at hp; exact ih q p hp
    | started t =>
      by_cases e : q = c.next
      · subst e
        simp only [upd_same, Option.some.injEq] at hp ⊢
        subst hp
        exact ⟨t, rfl, hcode _ t⟩
      · simp only [upd_ne _ _ e] at hp ⊢; exact ih q p hp
    | moved => exact ih q p hp

/-- If the code of every task awaits operations of `P` only, so does every process. -/
theorem procs_use {good : Config M → Event S ε → Prop} (P : Nat → S.Op → Prop)
    (hcode : ∀ pid t, (M.code pid t).Uses (P pid)) {c : Config M} (h : Reach good c) :
    ∀ pid p, c.procs pid = some p → p.Uses (P pid) := by
  intro pid p hp
  obtain ⟨_, _, hu⟩ := procs_form (fun pid _ p => p.Uses (P pid)) hcode (fun _ _ _ _ r hu => hu.2 r) h pid p hp
  exact hu

end Connect.Await
