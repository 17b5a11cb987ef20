/-
  Connect.Worker.AtMostOnce — `@idempotent` starts a body at most once per ARQ job id.

  `guarded H wrapped` is any system `H` of tasks (its state, operations and code are
  arbitrary) whose wrapped tasks run behind `@idempotent`, next to the processed_jobs
  table, which nothing else writes and from which no row is deleted. Any number of
  workers deliver the same id any number of times, every await may raise, and a process
  may crash at any of them.

  `Notes` is the invariant. Its heart is that the wins of a job id (an insert that
  affected a row) are all of one process, because a win leaves the row and only the
  absence of the row admits one; a process enters a body only after its own win, and only
  once, which its law (`law`) knows from the calls it has made itself.
-/

import Connect.Worker.Idempotency

namespace Connect.Worker

open Await

variable {B : Sig} {R : Type}

/-- `H` with some of its tasks behind `@idempotent`, from a processed_jobs table of `table`. -/
def guarded (H : System B Exc R) (wrapped : H.Task → Option Ctx) (table : Processed → Prop) :
    System (TaskSig B) Exc (Option R) where
  State := Processed × H.State
  Env := H.Env
  Task := H.Task
  init s := table s.1 ∧ H.init s.2
  exec pid s o r :=
    match o, r with
    | .inl o, r => (s.1.exec o r).map (·, s.2)
    | .inr o, r => (H.exec pid s.2 o r).map (s.1, ·)
  env s e := (H.env s.2 e).map (s.1, ·)
  starts s t := H.starts s.2 t
  code pid t :=
    match wrapped t with
    | some ctx => idempotent (H.code pid t) ctx
    | none => some <$> (H.code pid t).lift

/-- What an operation of a task came to: on processed_jobs, or of its body. -/
inductive Note where
  | marked (jobId : String) (inserted : Bool)
  | markRaised (jobId : String) (e : Exc)
  | setFailed (jobId : String)
  | setFailedRaised (jobId : String) (e : Exc)
  | entered (jobId : String)
  | body
  deriving DecidableEq, Repr

def noteOf : (o : ProcessedOp) → Except Exc o.Ret → Option Note
  | .markProcessed j _ _, .ok (b : Bool) => some (.marked j b)
  | .markProcessed j _ _, .error e => some (.markRaised j e)
  | .markFailed j, .ok _ => some (.setFailed j)
  | .markFailed j, .error e => some (.setFailedRaised j e)
  | .enter j, .ok _ => some (.entered j)
  | .enter _, .error _ => none

def note (e : Event (TaskSig B) Exc) : Option Note :=
  match e with
  | ⟨_, .inl o, r⟩ => noteOf o r
  | ⟨_, .inr _, _⟩ => some .body

abbrev Hist (B : Sig) := List (Event (TaskSig B) Exc)

/-- The calls of process `pid`, newest first. -/
def calls (pid : Nat) (h : Hist B) : List Note := (h.filter (·.pid == pid)).filterMap note

/-- How often the body of `j` was started. -/
def started (j : String) (h : Hist B) : Nat := h.countP (note · == some (.entered j))

/-! ## Calls -/

theorem mem_calls {pid : Nat} {h : Hist B} {n : Note} : n ∈ calls pid h ↔ ∃ e ∈ h, e.pid = pid ∧ note e = some n := by
  simp only [calls, List.mem_filterMap, List.mem_filter, beq_iff_eq, and_assoc]

theorem calls_own {pid : Nat} {e : Event (TaskSig B) Exc} (h : Hist B) (he : e.pid = pid) :
    calls pid (e :: h) = (note e).toList ++ calls pid h := by
  simp only [calls, List.filter_cons, he, beq_self_eq_true, if_true, List.filterMap_cons]
  cases note e <;> rfl

theorem calls_other {pid : Nat} {e : Event (TaskSig B) Exc} (h : Hist B) (he : e.pid ≠ pid) :
    calls pid (e :: h) = calls pid h := by
  simp only [calls, List.filter_cons, beq_iff_eq, he, if_false]

theorem started_cons (j : String) (e : Event (TaskSig B) Exc) (h : Hist B) :
    started j (e :: h) = started j h + if note e = some (.entered j) then 1 else 0 := by
  simp only [started, List.countP_cons, beq_iff_eq]

theorem started_zero {j : String} {h : Hist B} : started j h = 0 ↔ ∀ e ∈ h, note e ≠ some (.entered j) := by
  simp only [started, List.countP_eq_zero, beq_iff_eq, ne_eq]

/-! ## The law of a process -/

/-- No row is lost, and a row marked 'failed' stays so. -/
def Kept (t t' : Processed) : Prop :=
  ∀ j row, t j = some row → ∃ row', t' j = some row' ∧
    (row.resultStatus = some "failed" → row'.resultStatus = some "failed")

theorem Kept.refl (t : Processed) : Kept t t := fun _ row h => ⟨row, h, id⟩

theorem Kept.trans {a b c : Processed} (h : Kept a b) (h' : Kept b c) : Kept a c := by
  intro j row hr
  obtain ⟨r₁, h₁, f₁⟩ := h j row hr
  obtain ⟨r₂, h₂, f₂⟩ := h' j r₁ h₁
  exact ⟨r₂, h₂, fun hf => f₂ (f₁ hf)⟩

theorem exec_kept {t t' : Processed} {o : ProcessedOp} {r : Except Exc o.Ret} (h : t.exec o r = some t') :
    Kept t t' := by
  rcases o with ⟨j, w, st⟩ | j | j <;> rcases r with e | v
  · cases h; exact .refl _
  · simp only [Processed.exec] at h
    cases hj : t j with
    | none =>
      simp only [hj] at h
      split at h
      · cases h
        intro i row hi
        have : i ≠ j := by rintro rfl; rw [hj] at hi; cases hi
        exact ⟨row, by simp [Processed.set, this, hi], id⟩
      · cases h
    | some row =>
      simp only [hj] at h
      split at h
      · cases h
      · cases h; exact .refl _
  · cases h; exact .refl _
  · simp only [Processed.exec] at h
    cases hj : t j with
    | none => simp only [hj] at h; cases h; exact .refl _
    | some row =>
      simp only [hj] at h
      cases h
      intro i row' hi
      by_cases e : i = j
      · exact ⟨{ row with resultStatus := some "failed" }, by simp [Processed.set, e], fun _ => rfl⟩
      · exact ⟨row', by simp [Processed.set, e, hi], id⟩
  · cases h
  · cases h; exact .refl _

structure Notes (t : Processed) (h : Hist B) : Prop where
  row : ∀ e ∈ h, ∀ j, note e = some (.marked j true) → ∃ row, t j = some row
  one : ∀ e ∈ h, ∀ e' ∈ h, ∀ j, note e = some (.marked j true) → note e' = some (.marked j true) → e.pid = e'.pid
  winner : ∀ e ∈ h, ∀ j, note e = some (.entered j) → .marked j true ∈ calls e.pid h
  once : ∀ j, started j h ≤ 1
  failed : ∀ e ∈ h, ∀ j, note e = some (.setFailed j) →
    .entered j ∈ calls e.pid h ∧ ∃ row, t j = some row ∧ row.resultStatus = some "failed"

/-- What a process promises of an operation that came to `n`. -/
def Effect (pid : Nat) (t : Processed) (h : Hist B) (t' : Processed) : Option Note → Prop
  | some (.marked j true) => t j = none ∧ ∃ row, t' j = some row
  | some (.entered j) => .marked j true ∈ calls pid h ∧ .entered j ∉ calls pid h
  | some (.setFailed j) => .entered j ∈ calls pid h ∧ ∃ row, t' j = some row ∧ row.resultStatus = some "failed"
  | _ => True

variable {H : System B Exc R} {wrapped : H.Task → Option Ctx} {table : Processed → Prop}

abbrev GWorld (H : System B Exc R) (wrapped : H.Task → Option Ctx) (table : Processed → Prop) :=
  World (guarded H wrapped table)

def Others (pid : Nat) (w w' : GWorld H wrapped table) : Prop :=
  calls pid w'.hist = calls pid w.hist ∧ Kept w.st.1 w'.st.1

def Promise (pid : Nat) (w w' : GWorld H wrapped table) : Prop :=
  ∃ e, w'.hist = e :: w.hist ∧ e.pid = pid ∧ Kept w.st.1 w'.st.1 ∧ Effect pid w.st.1 w.hist w'.st.1 (note e)

/-- The calls of a delivery that won `j` and is in the body. -/
def InBody (j : String) (cs : List Note) : Prop :=
  ∃ n, cs = List.replicate n Note.body ++ [.entered j, .marked j true]

/-- What the calls of a finished delivery of `j` say of how it ended. -/
def Ended (j : String) (cs : List Note) : Except Exc (Option R) → Prop
  | .ok none => cs = [.marked j false]
  | .ok (some _) => InBody j cs
  | .error e =>
    cs = [.markRaised j e] ∨ (InBody j cs ∧ e.isException = false) ∨
      ∃ cs', InBody j cs' ∧ (cs = .setFailed j :: cs' ∨ cs = .setFailedRaised j e :: cs')

theorem notes_nil (t : Processed) : Notes t ([] : Hist B) := by
  constructor
  · intro _ h; cases h
  · intro _ h; cases h
  · intro _ h; cases h
  · intro _; exact Nat.zero_le _
  · intro _ h; cases h

theorem Notes.kept {t t' : Processed} {h : Hist B} (hn : Notes t h) (hk : Kept t t') : Notes t' h := by
  refine ⟨fun e he j hj => ?_, hn.one, hn.winner, hn.once, fun e he j hj => ?_⟩
  · obtain ⟨row, hr⟩ := hn.row e he j hj
    obtain ⟨row', hr', _⟩ := hk j row hr
    exact ⟨row', hr'⟩
  · obtain ⟨hent, row, hr, hf⟩ := hn.failed e he j hj
    obtain ⟨row', hr', hf'⟩ := hk j row hr
    exact ⟨hent, row', hr', hf' hf⟩

theorem calls_cons (pid : Nat) (e : Event (TaskSig B) Exc) {h : Hist B} {n : Note} (hn : n ∈ calls pid h) :
    n ∈ calls pid (e :: h) := by
  obtain ⟨x, hx, hp, hm⟩ := mem_calls.mp hn
  exact mem_calls.mpr ⟨x, List.mem_cons_of_mem _ hx, hp, hm⟩

theorem Notes.cons {t t' : Processed} {h : Hist B} {e : Event (TaskSig B) Exc} (hn : Notes t h) (hk : Kept t t')
    (he : Effect e.pid t h t' (note e)) : Notes t' (e :: h) := by
  have hn' := hn.kept hk
  refine ⟨?_, ?_, ?_, ?_, ?_⟩
  · intro x hx j hj
    rcases List.mem_cons.mp hx with rfl | hx
    · rw [hj] at he; exact he.2
    · exact hn'.row x hx j hj
  · intro x hx y hy j hxj hyj
    rcases List.mem_cons.mp hx with ex | hx' <;> rcases List.mem_cons.mp hy with ey | hy'
    · rw [ex, ey]
    · rw [← ex, hxj] at he
      obtain ⟨row, hr⟩ := hn.row y hy' j hyj
      rw [he.1] at hr; cases hr
    · rw [← ey, hyj] at he
      obtain ⟨row, hr⟩ := hn.row x hx' j hxj
      rw [he.1] at hr; cases hr
    · exact hn.one x hx' y hy' j hxj hyj
  · intro x hx j hj
    rcases List.mem_cons.mp hx with rfl | hx
    · rw [hj] at he
      rw [calls_own h rfl]
      exact List.mem_append_right _ he.1
    · exact calls_cons _ _ (hn.winner x hx j hj)
  · intro j
    rw [started_cons]
    split
    · rename_i hj
      rw [hj] at he
      obtain ⟨y, hy, hp, hm⟩ := mem_calls.mp he.1
      have hz : started j h = 0 := by
        rw [started_zero]
        intro x hx hxj
        obtain ⟨z, hz, hzp, hzm⟩ := mem_calls.mp (hn.winner x hx j hxj)
        -- both won `j`, so they are one process, which has not entered before
        have := hn.one z hz y hy j hzm hm
        exact he.2 (mem_calls.mpr ⟨x, hx, by omega, hxj⟩)
      omega
    · have := hn.once j; omega
  · intro x hx j hj
    rcases List.mem_cons.mp hx with rfl | hx
    · rw [hj] at he; exact ⟨calls_cons _ _ he.1, he.2⟩
    · exact ⟨calls_cons _ _ (hn'.failed x hx j hj).1, (hn'.failed x hx j hj).2⟩

/-! ## The wrapper lives by it -/

abbrev taskLaw (H : System B Exc R) (wrapped : H.Task → Option Ctx) (table : Processed → Prop) (pid : Nat) :
    Law (GWorld H wrapped table) (TaskSig B) Exc :=
  (guarded H wrapped table).law (fun w => Notes w.st.1 w.hist) Others Promise (fun _ _ _ _ => True) pid

theorem Others.refl (pid : Nat) (w : GWorld H wrapped table) : Others pid w w := ⟨rfl, .refl _⟩

theorem Others.trans {pid : Nat} {a b c : GWorld H wrapped table} (h : Others pid a b) (h' : Others pid b c) :
    Others pid a c := ⟨h'.1.trans h.1, h.2.trans h'.2⟩

/-- A call on processed_jobs by a process that has made the calls `cs`. -/
theorem wp_left {pid : Nat} {o : ProcessedOp} {cs : List Note} {Q : Except Exc o.Ret → GWorld H wrapped table → Prop}
    {w : GWorld H wrapped table} (hc : calls pid w.hist = cs)
    (h : ∀ (w₁ : GWorld H wrapped table) r t', calls pid w₁.hist = cs → Notes w₁.st.1 w₁.hist →
      w₁.st.1.exec o r = some t' →
      Effect pid w₁.st.1 w₁.hist t' (noteOf o r) ∧ ∀ w₂ :
      GWorld H wrapped table, calls pid w₂.hist = (noteOf o r).toList ++ cs → Q r w₂) :
    wp (taskLaw H wrapped table pid) (@Prog.left processedSig B Exc o) Q w := by
  apply wp_await
  intro w₁ hr hi r w₂ ⟨_, s, hx, hw⟩
  obtain ⟨t', ht, rfl⟩ := Option.map_eq_some_iff.mp hx
  have hc₁ : calls pid w₁.hist = cs := hr.1.trans hc
  obtain ⟨he, hq⟩ := h w₁ r t' hc₁ hi ht
  subst hw
  refine ⟨⟨⟨pid, .inl o, r⟩, rfl, rfl, exec_kept ht, he⟩, hq _ ?_⟩
  exact (calls_own _ rfl).trans (by rw [hc₁]; rfl)

/-- A body has no call on processed_jobs. -/
theorem wp_body {pid : Nat} {cs : List Note} {w : GWorld H wrapped table} (func : Prog B Exc R)
    (hc : calls pid w.hist = cs) :
    wp (taskLaw H wrapped table pid) func.lift
      (fun _ w => ∃ n, calls pid w.hist = List.replicate n Note.body ++ cs) w := by
  apply wp_uses (O := fun o : (TaskSig B).Op => ∃ b, o = .inr b)
    (P := fun w : GWorld H wrapped table => ∃ n, calls pid w.hist = List.replicate n Note.body ++ cs)
  · intro a b h₁ h₂
    obtain ⟨hab, _⟩ := h₁
    obtain ⟨n, h⟩ := h₂
    exact ⟨n, hab.trans h⟩
  · intro w o r w' h₁ h₂ _ h₃
    obtain ⟨b, rfl⟩ := h₁
    obtain ⟨n, hc⟩ := h₂
    obtain ⟨_, s, hx, rfl⟩ := h₃
    obtain ⟨s', _, rfl⟩ := Option.map_eq_some_iff.mp hx
    refine ⟨⟨⟨pid, .inr b, r⟩, rfl, rfl, .refl _, trivial⟩, n + 1, (calls_own _ rfl).trans ?_⟩
    rw [hc]
    rfl
  · exact (func.uses_all.mono fun o _ => ⟨o, rfl⟩).lift
  · exact ⟨0, hc⟩

theorem exec_mark {t t' : Processed} {j : String} {w st : Option String}
    (h : t.exec (.markProcessed j w st) (.ok true) = some t') : t j = none ∧ ∃ row, t' j = some row := by
  simp only [Processed.exec] at h
  cases hj : t j with
  | none => simp only [hj, if_true] at h; cases h; exact ⟨rfl, ⟨w, st⟩, by simp [Processed.set]⟩
  | some row => simp [hj] at h

theorem exec_fail {t t' : Processed} {j : String} (hr : ∃ row, t j = some row)
    (h : t.exec (.markFailed j) (.ok ()) = some t') : ∃ row, t' j = some row ∧ row.resultStatus = some "failed" := by
  obtain ⟨row, hr⟩ := hr
  simp only [Processed.exec, hr] at h
  cases h
  exact ⟨{ row with resultStatus := some "failed" }, by simp [Processed.set], rfl⟩

theorem wp_guarded_body {pid : Nat} {j : String} {w : GWorld H wrapped table} (func : Prog B Exc R)
    (hc : calls pid w.hist = [.entered j, .marked j true]) :
    wp (taskLaw H wrapped table pid)
      ((some <$> func.lift).catching fun e => if e.isException then do markFailed j; .raise e else .raise e)
      (fun x w => Ended j (calls pid w.hist) x) w := by
  rw [wp_catching, Prog.map_def, wp_bind]
  refine wp_mono ?_ (wp_body func hc)
  intro x w hc
  cases x with
  | ok a => exact hc
  | error e =>
    simp only [andThen_error]
    by_cases he : e.isException = true
    · simp only [he, if_true, Prog.bind_def]
      obtain ⟨n, hc⟩ := hc
      refine wp_bind.mpr (wp_left hc fun w₁ r t' hc₁ hn ht => ?_)
      cases r with
      | error e' => exact ⟨trivial, fun w₂ h₂ => Or.inr (Or.inr ⟨_, ⟨n, rfl⟩, Or.inr h₂⟩)⟩
      | ok v =>
        refine ⟨⟨by simp [hc₁], exec_fail ?_ ht⟩, fun w₂ h₂ => Or.inr (Or.inr ⟨_, ⟨n, rfl⟩, Or.inl h₂⟩)⟩
        obtain ⟨x, hx, _, hm⟩ := mem_calls.mp (show Note.marked j true ∈ calls pid w₁.hist by simp [hc₁])
        exact hn.row x hx j hm
    · simp only [he]
      exact Or.inr (Or.inl ⟨hc, by simpa using he⟩)

theorem wp_idempotent {pid : Nat} {j : String} {ctx : Ctx} {w : GWorld H wrapped table} (func : Prog B Exc R)
    (hj : truthy ctx.jobId = some j) (hc : calls pid w.hist = []) :
    wp (taskLaw H wrapped table pid) (idempotent func ctx) (fun x w => Ended j (calls pid w.hist) x) w := by
  simp only [idempotent, hj, Prog.bind_def]
  rw [wp_bind]
  refine wp_left hc fun w₁ r t' _ _ ht => ?_
  cases r with
  | error e => exact ⟨trivial, fun w₂ h₂ => Or.inl h₂⟩
  | ok b =>
    cases b with
    | false => exact ⟨trivial, fun w₂ h₂ => h₂⟩
    | true =>
      refine ⟨exec_mark ht, fun w₂ h₂ => ?_⟩
      refine wp_bind.mpr (wp_left h₂ fun w₃ r t' hc₃ _ ht => ?_)
      cases r with
      | error e => cases ht
      | ok v =>
        refine ⟨⟨by simp [hc₃, noteOf], by simp [hc₃, noteOf]⟩, fun w₄ h₄ => ?_⟩
        exact wp_guarded_body func h₄

/-- The job id a task is deduplicated by. -/
def dedupId (wrapped : H.Task → Option Ctx) (t : H.Task) : Option String :=
  (wrapped t).bind fun ctx => truthy ctx.jobId

def law (H : System B Exc R) (wrapped : H.Task → Option Ctx) (table : Processed → Prop) :
    Sound (guarded H wrapped table) any where
  inv w := Notes w.st.1 w.hist
  rely := Others
  guar pid _ := Promise pid
  allow _ _ _ _ := True
  post pid t x w := ∀ j, dedupId wrapped t = some j → Ended j (calls pid w.hist) x
  refl := Others.refl
  trans _ _ _ _ := Others.trans
  init _ _ := notes_nil _
  keep pid _ w w' hn := fun ⟨e, hh, hp, hk, he⟩ => by rw [hh]; subst hp; exact hn.cons hk he
  others pid _ q w w' hne _ := fun ⟨e, hh, hp, hk, _⟩ => ⟨by rw [hh]; exact calls_other _ (by omega), hk⟩
  outside w e s hn hx := by
    obtain ⟨s', _, rfl⟩ := Option.map_eq_some_iff.mp hx
    exact ⟨hn, fun q => ⟨rfl, .refl _⟩⟩
  allowed _ _ _ := trivial
  stable pid t x w w' hr h j hj := by rw [hr.1]; exact h j hj
  code pid t w hn _ hf := by
    have hc : calls pid w.hist = [] := by
      rw [List.eq_nil_iff_forall_not_mem]
      intro n hm
      obtain ⟨e, he, hp, _⟩ := mem_calls.mp hm
      exact hf e he hp
    have hany : ∀ f : Prog B Exc R, wp (taskLaw H wrapped table pid) (some <$> f.lift) (fun _ _ => True) w := by
      intro f
      rw [Prog.map_def, wp_bind]
      refine wp_mono ?_ (wp_body f hc)
      intro x w _
      cases x <;> trivial
    show wp (taskLaw H wrapped table pid) _ _ w
    simp only [guarded]
    cases hw : wrapped t with
    | none => exact wp_mono (fun x w _ j hj => by simp [dedupId, hw] at hj) (hany _)
    | some ctx =>
      cases hj : truthy ctx.jobId with
      | none =>
        simp only [idempotent, hj]
        exact wp_mono (fun x w _ j hj' => by simp [dedupId, hw, hj] at hj') (hany _)
      | some i =>
        refine wp_mono (fun x w h j hj' => ?_) (wp_idempotent (H.code pid t) hj hc)
        simp only [dedupId, hw, Option.bind_some, hj, Option.some.injEq] at hj'
        subst hj'
        exact h

/-! ## Every run -/

/-- Process `pid` is a delivery of job id `j`, with `p` left to do. -/
def Delivers (c : Config (guarded H wrapped table)) (pid : Nat) (j : String)
    (p : Prog (TaskSig B) Exc (Option R)) : Prop :=
  (∃ t, c.task pid = some t ∧ dedupId wrapped t = some j) ∧ c.procs pid = some p

/-- No operation of `pid` changed anything in the first `n` steps. -/
def Untouched (s : (guarded H wrapped table).State) (f : Sched (guarded H wrapped table)) (n pid : Nat) : Prop :=
  ∀ m < n, ∀ e, event (conf s f m) (f m) = some e → e.pid = pid → (conf s f (m + 1)).w.st = (conf s f m).w.st

theorem ended {c : Config (guarded H wrapped table)} (h : Reach any c) {pid : Nat} {j : String} :
    (∀ x, Delivers c pid j (.ret x) → Ended j (calls pid c.w.hist) (.ok x)) ∧
      ∀ e, Delivers c pid j (.raise e) → Ended j (calls pid c.w.hist) (.error e : Except Exc (Option R)) := by
  refine ⟨fun x ⟨⟨t, ht, hj⟩, hp⟩ => ?_, fun e ⟨⟨t, ht, hj⟩, hp⟩ => ?_⟩
  all_goals
    obtain ⟨t', ht', hw⟩ := ((law H wrapped table).keeps h).2 pid _ hp
    rw [ht] at ht'
    cases ht'
    exact hw j hj

theorem notes {c : Config (guarded H wrapped table)} (h : Reach any c) : Notes c.w.st.1 c.w.hist :=
  ((law H wrapped table).keeps h).1

theorem inBody_entered {j : String} {cs : List Note} (h : InBody j cs) : .entered j ∈ cs := by
  obtain ⟨n, rfl⟩ := h
  simp

/-- A call on processed_jobs that lost the race, and nothing else, changes nothing. -/
theorem lost_untouched {s : (guarded H wrapped table).State} {f : Sched (guarded H wrapped table)}
    {n pid : Nat} {j : String}
    (hc : calls pid (conf s f n).w.hist = [.marked j false]) : Untouched s f n pid := by
  intro m hm e he hpid
  have hmem := conf_event hm he
  have hn : ∀ x, note e = some x → x = .marked j false := by
    intro x hx
    have : x ∈ calls pid (conf s f n).w.hist := mem_calls.mpr ⟨e, hmem, hpid, hx⟩
    simpa [hc] using this
  obtain ⟨k, s', _, hx, hs⟩ := event_some he
  have hst : (conf s f (m + 1)).w.st = s' := by rw [show conf s f (m + 1) = step (conf s f m) (f m) from rfl, hs]; rfl
  rw [hst]
  obtain ⟨q, o, r⟩ := e
  rcases o with o | o
  · obtain ⟨t', ht, rfl⟩ := Option.map_eq_some_iff.mp hx
    suffices h : t' = (conf s f m).w.st.1 by rw [h]; rfl
    rcases o with ⟨i, w, st⟩ | i | i <;> rcases r with e | v
    · cases hn _ rfl
    · cases hn _ rfl
      simp only [Processed.exec] at ht
      split at ht <;> simp_all
    · cases hn _ rfl
    · cases hn _ rfl
    · cases ht
    · cases hn _ rfl
  · cases hn _ rfl

/-- Whatever is delivered, interleaved and crashed: the body of `j` is started at most
    once; a delivery that did not start it returns None having changed nothing, or raises
    what its insert raised; and once the failure of the body is recorded, the row says so
    for good and no later delivery starts the body. -/
theorem idempotent_at_most_once {s : (guarded H wrapped table).State} (hs : (guarded H wrapped table).init s)
    (f : Sched (guarded H wrapped table)) (n : Nat) (j : String) :
    started j (conf s f n).w.hist ≤ 1 ∧
    (∀ pid p, Delivers (conf s f n) pid j p → .entered j ∉ calls pid (conf s f n).w.hist →
      (∀ x, p = .ret x → x = none ∧ Untouched s f n pid) ∧
      ∀ e, p = .raise e → .markRaised j e ∈ calls pid (conf s f n).w.hist) ∧
    (∀ pid e, Delivers (conf s f n) pid j (.raise e) → e.isException = true →
      .entered j ∈ calls pid (conf s f n).w.hist →
      .setFailed j ∈ calls pid (conf s f n).w.hist ∨ .setFailedRaised j e ∈ calls pid (conf s f n).w.hist) ∧
    ∀ m ≤ n, (∃ pid, .setFailed j ∈ calls pid (conf s f m).w.hist) →
      (∃ row, (conf s f n).w.st.1 j = some row ∧ row.resultStatus = some "failed") ∧
      ∀ pid, (conf s f m).next ≤ pid → .entered j ∉ calls pid (conf s f n).w.hist := by
  have hr : ∀ m, Reach any (conf s f m) := fun m => conf_reach hs fun _ _ _ _ => trivial
  have hn := notes (hr n)
  refine ⟨hn.once j, ?_, ?_, ?_⟩
  · intro pid p hd hent
    refine ⟨?_, ?_⟩
    · intro x h
      subst h
      have he := (ended (hr n)).1 x hd
      cases x with
      | none => exact ⟨rfl, lost_untouched he⟩
      | some a => exact absurd (inBody_entered he) hent
    · intro e h
      subst h
      rcases (ended (hr n)).2 e hd with he | ⟨he, _⟩ | ⟨cs, he, hc | hc⟩
      · simp [he]
      · exact absurd (inBody_entered he) hent
      · exact absurd (by rw [hc]; exact List.mem_cons_of_mem _ (inBody_entered he)) hent
      · exact absurd (by rw [hc]; exact List.mem_cons_of_mem _ (inBody_entered he)) hent
  · intro pid e hd hexc hent
    rcases (ended (hr n)).2 _ hd with he | ⟨_, he⟩ | ⟨cs, _, hc | hc⟩
    · simp [he] at hent
    · rw [hexc] at he; cases he
    · exact Or.inl (by simp [hc])
    · exact Or.inr (by simp [hc])
  · intro m hm h
    obtain ⟨q, hq⟩ := h
    obtain ⟨e, he, hp, hf⟩ := mem_calls.mp hq
    have hmem := conf_hist hm e he
    obtain ⟨hent, hrow⟩ := hn.failed e hmem j hf
    refine ⟨hrow, fun pid hpid h => ?_⟩
    obtain ⟨x, hx, hxp, hxj⟩ := mem_calls.mp h
    obtain ⟨y, hy, hyp, hyj⟩ := mem_calls.mp hent
    obtain ⟨a, ha, hap, haj⟩ := mem_calls.mp (hn.winner x hx j hxj)
    obtain ⟨b, hb, hbp, hbj⟩ := mem_calls.mp (hn.winner y hy j hyj)
    -- the recorder and the later delivery would both have won `j`
    have := hn.one a ha b hb j haj hbj
    have := (fresh (hr m)).hist e he
    omega

/-- A task of one operation on a counter, which the pool delivers at will. -/
def bump : System ⟨Unit, fun _ => Unit⟩ Exc Nat where
  State := Nat
  Env := Unit
  Task := String
  init n := n = 0
  exec _ n _ r := match r with | .ok _ => some (n + 1) | .error _ => some n
  env n _ := some n
  starts _ _ := true
  code _ _ := .op () fun | .ok _ => .ret 7 | .error e => .raise e

abbrev bumps : System (TaskSig ⟨Unit, fun _ => Unit⟩) Exc (Option Nat) :=
  guarded bump (fun jobId => some ⟨some jobId, none, none, true⟩) fun t => t = fun _ => none

def noRows : bumps.State := (fun _ => none, (0 : Nat))

/-- The database and the body do what they are asked, and the insert affects `rows` rows. -/
def answerMark (rows : Bool) (_ : bumps.State) : (o : (TaskSig ⟨Unit, fun _ => Unit⟩).Op) →
    Except Exc ((TaskSig ⟨Unit, fun _ => Unit⟩).Ret o)
  | .inl (.markProcessed _ _ _) => .ok rows
  | .inl (.markFailed _) => .ok ()
  | .inl (.enter _) => .ok ()
  | .inr _ => .ok ()

/-- Two workers get `arq-1`; the first wins, its body raises, and a third delivery follows. -/
def twice : Sched bumps
  | 0 | 1 | 7 => .start "arq-1"
  | 2 | 4 | 6 => .run 0 (answerMark true)
  | 3 => .run 1 (answerMark false)
  | 5 => .run 0 fun _ _ => .error (.exception "boom")
  | _ => .run 2 (answerMark false)

theorem idempotent_at_most_once_twice :
    started "arq-1" (conf noRows twice 9).w.hist = 1 ∧ started "arq-1" (conf noRows twice 9).w.hist ≤ 1 ∧
      .entered "arq-1" ∉ calls 2 (conf noRows twice 9).w.hist := by
  have h := idempotent_at_most_once (s := noRows) ⟨rfl, rfl⟩ twice 9 "arq-1"
  refine ⟨by decide, h.1, (h.2.2.2 7 (by omega) ⟨0, by decide⟩).2 2 ?_⟩
  decide

end Connect.Worker
