/-
  Connect.Worker.Exit — the status `import_job` leaves when its coroutine has ended.

  `except Exception` does not take asyncio's CancelledError, the line that announces the
  start is published before the `try`, and the handler publishes its line before it writes
  `failed`. An exception at one of these awaits leaves the row `running`, and the
  redelivery is skipped (`left_running`).

  `exit_terminal`: these are the only ways. In every execution that wrote `running`, under
  any interference of the other tasks, the row is completed, failed, cancelled or gone at
  the end unless one of these awaits raised before `completed` was written; and when no
  other task touches the row, it is so exactly then.
-/

import Connect.Worker.Settled

namespace Connect.Worker

open Await

section Pieces

variable {R : Db → Db → Prop} {pid jobId : Nat} {ctx : Ctx} {α : Type} {s s' : Db} {calls : List JobCall}

/-! ## The handler -/

theorem interrupts_raised {call : JobCall} (h : Interrupts call) : call.raised = true := by
  rcases h with ⟨h, _⟩ | ⟨h, _⟩
  · simp [Call.raised, h]
  · exact h

/-- A coroutine that catches nothing and returns had every call answered. -/
theorem bare_returned {p : JobProg α} (hb : Bare p) {v : α} (h : JobExec R pid p s calls (.ok v) s') :
    ∀ call ∈ calls, call.raised = false := (hb.ends h).1 v rfl

/-- What the handler came to. -/
inductive Handler (R : Db → Db → Prop) (jobId : Nat) (e : Exc) (s s' : Db) (calls : List JobCall) : Prop
  /-- The exception was none it takes. -/
  | passed : e = .cancelled → calls = [] → R s s' → Handler R jobId e s s' calls
  /-- Its announcement raised. -/
  | cut : e ≠ .cancelled → (∃ call ∈ calls, Interrupts call) → (∀ call ∈ calls, ¬ Completes call.op) →
      (Closed jobId s → Closed jobId s') → (Quiet R jobId → Running jobId s → Running jobId s') →
      Handler R jobId e s s' calls
  /-- It wrote `failed`. -/
  | wrote : e ≠ .cancelled → Closed jobId s' → (∀ call ∈ calls, call.raised = false) → Handler R jobId e s s' calls

variable (hR : ∀ a b, R a b → OtherTasks jobId a b) (hrefl : ∀ s, R s s)

include hR hrefl

theorem exec_jobFailed {e : Exc} {x : Except Exc JobResult} (h : JobExec R pid (jobFailed ctx jobId e) s calls x s')
    (hi : jobId < s.nextId) (hacc : Accepted calls) : Handler R jobId e s s' calls := by
  by_cases he : e.isException = true
  · have hne : e ≠ .cancelled := by rintro rfl; cases he
    have hform : JobExec R pid ((publishLog ctx (.failed e.text)).bind fun _ =>
        (updateStatus jobId .failed { errorMessage := some e.text }).bind
        fun _ => .ret (.failed e.text)) s calls x s' := by
      unfold jobFailed at h
      rw [if_pos he] at h
      exact h
    have hlog : Prog.Uses (fun o : JobOp => Announces o ∧ ¬ Completes o ∧ o.outside)
        (publishLog ctx (.failed e.text)) :=
      uses_publishLog ⟨trivial, id, trivial⟩
    rcases exec_bind hrefl hform with ⟨_, _, h₁⟩ | ⟨_, s₁, first, rest, rfl, h₁, h₂⟩
    · obtain ⟨first, last, rfl, hraised, _⟩ := ((bare_publishLog _).ends h₁).2 _ rfl
      have hlast : last ∈ first ++ [last] := List.mem_append_right _ (List.mem_singleton.mpr rfl)
      refine .cut hne ⟨last, hlast, Or.inr ⟨hraised, (exec_uses hlog h₁ last hlast).1⟩⟩
        (fun call hm => (exec_uses hlog h₁ call hm).2.1) (exec_closed hR (hlog.mono fun _ h => h.2.2) h₁) fun hq => ?_
      exact exec_running hq (hlog.mono fun o h => (Or.inr h.2.2 : KeepsRunning jobId o)) h₁
    · rcases exec_bind hrefl h₂ with ⟨_, _, h₃⟩ | ⟨row, s₂, second, rest', rfl, h₃, rfl, _, hr⟩
      · exfalso
        cases exec_update h₃ with
        | loadRaised =>
          exact hacc _ (List.mem_append_right _ (List.mem_singleton.mpr rfl)) rfl rfl
        | flushRaised =>
          exact hacc _ (List.mem_append_right _ (List.mem_cons_of_mem _ (List.mem_singleton.mpr rfl))) rfl rfl
      · refine .wrote hne (closed_other hR hr (update_settles hR rfl h₃ (exec_known hR h₁ hi))) fun call hm => ?_
        rcases List.mem_append.mp hm with hm | hm
        · exact bare_returned (bare_publishLog _) h₁ call hm
        · rw [List.append_nil] at hm
          exact bare_returned (bare_update _) h₃ call hm
  · have hc : e = .cancelled := by cases e <;> simp_all [Exc.isException]
    subst hc
    exact .passed rfl h.1 h.2.2

omit hR hrefl in
/-- A part of the `try`. -/
structure Part (R : Db → Db → Prop) (pid jobId : Nat) (p : JobProg α) : Prop where
  steps : p.Uses BodyStep
  prompt : Prompt .cancelled p
  completes : ∀ {s s' calls x}, JobExec R pid p s calls x s' → jobId < s.nextId →
    (∃ call ∈ calls, Completes call.op) → Closed jobId s'
  raises : ∀ {s s' calls e}, Quiet R jobId → JobExec R pid p s calls (.error e) s' → jobId < s.nextId →
    (∀ call ∈ calls, call.raised = true → ¬ Completes call.op) → Running jobId s → Running jobId s'

omit hR hrefl in
/-- A part ends in a cancellation exactly when one of its calls interrupts. -/
theorem Part.interrupts {p : JobProg α} (hp : Part R pid jobId p) {x : Except Exc α}
    (h : JobExec R pid p s calls x s') :
    x = .error .cancelled ↔ ∃ call ∈ calls, Interrupts call := by
  rw [hp.prompt.ends h]
  constructor
  · intro h
    obtain ⟨call, hm, hc⟩ := h
    exact ⟨call, hm, Or.inl ⟨hc, (exec_uses hp.steps h call hm).2.1⟩⟩
  · intro h
    obtain ⟨call, hm, ⟨hc, _⟩ | ⟨_, ha⟩⟩ := h
    · exact ⟨call, hm, hc⟩
    · exact absurd ha (exec_uses hp.steps h call hm).1

/-- An exception of a part, with what the handler made of it. -/
theorem Part.caught {p : JobProg α} (hp : Part R pid jobId p) {s₁ : Db} {c₁ c₂ : List JobCall} {e : Exc}
    {x : Except Exc JobResult}
    (h₁ : JobExec R pid p s c₁ (.error e) s₁) (h₂ : JobExec R pid (jobFailed ctx jobId e) s₁ c₂ x s')
    (hi : jobId < s.nextId) (hacc : Accepted c₂) :
    (¬ Interrupted (c₁ ++ c₂) → Closed jobId s') ∧
      (Quiet R jobId → Interrupted (c₁ ++ c₂) → Running jobId s → Running jobId s') := by
  have hends := hp.interrupts h₁
  have hdone : (∃ call ∈ c₁ ++ c₂, Interrupts call) → (∀ call ∈ c₂, ¬ Completes call.op) → ¬ Interrupted (c₁ ++ c₂) →
      Closed jobId s₁ := by
    intro hint hsilent hn
    apply Classical.byContradiction
    intro hopen
    refine hn ⟨hint, fun call hm _ hcomp => ?_⟩
    rcases List.mem_append.mp hm with hm | hm
    · exact hopen (hp.completes h₁ hi ⟨call, hm, hcomp⟩)
    · exact hsilent call hm hcomp
  have hstill : Quiet R jobId → Interrupted (c₁ ++ c₂) → Running jobId s → Running jobId s₁ := fun hq hint hrun =>
    hp.raises hq h₁ hi (fun call hm => hint.2 call (List.mem_append_left _ hm)) hrun
  cases exec_jobFailed hR hrefl h₂ (exec_known hR h₁ hi) hacc with
  | passed hc hnil hr =>
    obtain ⟨call, hm, hcall⟩ := hends.mp (by rw [hc])
    refine ⟨fun hn => closed_other hR hr (hdone ⟨call, List.mem_append_left _ hm, hcall⟩ ?_ hn),
      fun hq hint hrun => ?_⟩
    · rw [hnil]; intro _ h; cases h
    · exact running_other hq hr (hstill hq hint hrun)
  | cut _ hint hsilent hclosed hrunning =>
    obtain ⟨call, hm, hcall⟩ := hint
    refine ⟨fun hn => hclosed (hdone ⟨call, List.mem_append_right _ hm, hcall⟩ hsilent hn), fun hq hint hrun => ?_⟩
    exact hrunning hq (hstill hq hint hrun)
  | wrote hne hclosed hok =>
    refine ⟨fun _ => hclosed, fun _ hint _ => ?_⟩
    obtain ⟨⟨call, hm, hcall⟩, _⟩ := hint
    rcases List.mem_append.mp hm with hm | hm
    · exact absurd (Except.error.inj (hends.mpr ⟨call, hm, hcall⟩)) hne
    · have := interrupts_raised hcall
      rw [hok call hm] at this
      cases this

omit hR hrefl in
theorem part_resolveCredentials (job : JobDict) : Part R pid jobId (resolveCredentials job) where
  steps := by
    have hruns : (resolveCredentials job).Uses (RunOp jobId) := runs_resolveCredentials job
    exact hruns.mono runOp_body
  prompt := prompt_resolveCredentials job
  completes h _ hc := by
    obtain ⟨call, hm, hcall⟩ := hc
    have hruns : (resolveCredentials job).Uses (RunOp jobId) := runs_resolveCredentials job
    exact absurd hcall (runOp_complete (exec_uses hruns h call hm))
  raises hq h _ _ hr :=
    exec_running hq ((runs_resolveCredentials job).mono fun o ho => (Or.inl ho : KeepsRunning jobId o)) h hr

theorem part_importJobBody (job : JobDict) (r : Resolved) : Part R pid jobId (importJobBody ctx job jobId r) where
  steps := steps_importJobBody job r
  prompt := prompt_importJobBody job r
  completes := (finishes_importJobBody hR hrefl job r).completes
  raises := (finishes_importJobBody hR hrefl job r).raises

omit hR hrefl in
theorem interrupted_append {c₁ c₂ : List JobCall} (h₁ : ∀ call ∈ c₁, ¬ Interrupts call)
    (h₂ : ∀ call ∈ c₁, call.raised = true → ¬ Completes call.op) : Interrupted (c₁ ++ c₂) ↔ Interrupted c₂ := by
  constructor
  · intro h
    obtain ⟨⟨call, hm, hcall⟩, hno⟩ := h
    refine ⟨?_, fun call hm => hno call (List.mem_append_right _ hm)⟩
    rcases List.mem_append.mp hm with hm | hm
    · exact absurd hcall (h₁ call hm)
    · exact ⟨call, hm, hcall⟩
  · intro h
    obtain ⟨⟨call, hm, hcall⟩, hno⟩ := h
    refine ⟨⟨call, List.mem_append_right _ hm, hcall⟩, fun call hm => ?_⟩
    rcases List.mem_append.mp hm with hm | hm
    · exact h₂ call hm
    · exact hno call hm

omit hR hrefl in
theorem interrupted_close {c₁ c₂ : List JobCall} (h : ∀ call ∈ c₂, call.op = .close) :
    Interrupted (c₁ ++ c₂) ↔ Interrupted c₁ := by
  have hnot : ∀ call ∈ c₂, ¬ Interrupts call ∧ ¬ Completes call.op := by
    intro call hm
    have hop := h call hm
    refine ⟨?_, by rw [hop]; exact id⟩
    intro h
    rcases h with ⟨_, hne⟩ | ⟨_, ha⟩
    · exact hne hop
    · rw [hop] at ha; exact ha
  constructor
  · intro h
    obtain ⟨⟨call, hm, hcall⟩, hno⟩ := h
    refine ⟨?_, fun call hm => hno call (List.mem_append_left _ hm)⟩
    rcases List.mem_append.mp hm with hm | hm
    · exact ⟨call, hm, hcall⟩
    · exact absurd hcall (hnot call hm).1
  · intro h
    obtain ⟨⟨call, hm, hcall⟩, hno⟩ := h
    refine ⟨⟨call, List.mem_append_left _ hm, hcall⟩, fun call hm => ?_⟩
    rcases List.mem_append.mp hm with hm | hm
    · exact hno call hm
    · exact fun _ => (hnot call hm).2

/-- The body, its handler and the close of the client. -/
theorem exec_body {job : JobDict} {r : Resolved} {x : Except Exc JobResult}
    (h : JobExec R pid (((importJobBody ctx job jobId r).catching (jobFailed ctx jobId)).finally_
      (@Prog.await jobSig Exc JobOp.close)) s calls x s') (hi : jobId < s.nextId) (hacc : Accepted calls) :
    (¬ Interrupted calls → Closed jobId s') ∧
    (Quiet R jobId → Interrupted calls → Running jobId s → Running jobId s') := by
  obtain ⟨y, s₁, s₂, c₁, c₂, rfl, h₁, hr, hclose⟩ := exec_finally hrefl h
  have huse : (@Prog.await jobSig Exc JobOp.close).Uses fun o : JobOp => o = .close := .await rfl
  have hc₂ : ∃ z, JobExec R pid (@Prog.await jobSig Exc JobOp.close) s₁ c₂ z s₂ := by
    rcases hclose with ⟨_, hclose⟩ | ⟨e, _, hclose⟩
    · exact ⟨_, hclose⟩
    · exact ⟨_, hclose⟩
  obtain ⟨z, hc₂⟩ := hc₂
  have hclosed : Closed jobId s₁ → Closed jobId s' := fun hc =>
    closed_other hR hr (exec_closed hR (huse.mono fun o ho => by rw [ho]; trivial) hc₂ hc)
  have hrunning : Quiet R jobId → Running jobId s₁ → Running jobId s' := fun hq hrun =>
    running_other hq hr (exec_running hq (huse.mono fun o ho => Or.inr (by rw [ho]; trivial)) hc₂ hrun)
  rw [interrupted_close (exec_uses huse hc₂)]
  have hpart : Part R pid jobId (importJobBody ctx job jobId r) := part_importJobBody hR hrefl job r
  rcases exec_catching hrefl h₁ with ⟨v, rfl, hb⟩ | ⟨e, s₃, first, rest, rfl, hb, hf⟩
  · refine ⟨fun _ => hclosed ((finishes_importJobBody hR hrefl job r).returns hb hi), fun _ hint _ => ?_⟩
    cases (hpart.interrupts hb).mpr hint.1
  · obtain ⟨h₁, h₂⟩ := hpart.caught hR hrefl hb hf hi fun call hm =>
      hacc call (List.mem_append_left _ (List.mem_append_right _ hm))
    exact ⟨fun hn => hclosed (h₁ hn), fun hq hint hrun => hrunning hq (h₂ hq hint hrun)⟩

/-- The `try` of `import_job`, in either case. -/
theorem exec_tryImport {job : JobDict} {x : Except Exc JobResult}
    (h : JobExec R pid (tryImport ctx jobId job) s calls x s')
    (hi : jobId < s.nextId) (hacc : Accepted calls) :
    (¬ Interrupted calls → Closed jobId s') ∧
    (Quiet R jobId → Interrupted calls → Running jobId s → Running jobId s') := by
  rcases exec_bind hrefl h with ⟨e, he, h₁⟩ | ⟨y, s₁, c₁, c₂, rfl, h₁, h₂⟩
  · obtain ⟨y, hy, _⟩ := exec_attempt h₁
    cases hy
  · obtain ⟨y', hy, h₁⟩ := exec_attempt h₁
    cases hy
    have hi₁ := exec_known hR h₁ hi
    rcases y with e | r
    · exact (part_resolveCredentials job).caught hR hrefl h₁ h₂ hi fun call hm => hacc call
        (List.mem_append_right _ hm)
    · have hruns : (resolveCredentials job).Uses (RunOp jobId) := runs_resolveCredentials job
      have hpart : Part R pid jobId (resolveCredentials job) := part_resolveCredentials job
      have hsplit : Interrupted (c₁ ++ c₂) ↔ Interrupted c₂ := by
        refine interrupted_append (fun call hm hcall => ?_) fun call hm _ => runOp_complete
          (exec_uses hruns h₁ call hm)
        cases (hpart.interrupts h₁).mpr ⟨call, hm, hcall⟩
      obtain ⟨hclosed, hrunning⟩ := exec_body hR hrefl h₂ hi₁ fun call hm => hacc call (List.mem_append_right _ hm)
      rw [hsplit]
      refine ⟨hclosed, fun hq hint hrun => hrunning hq hint ?_⟩
      exact exec_running hq (hruns.mono fun o ho => (Or.inl ho : KeepsRunning jobId o)) h₁ hrun

omit hR hrefl

/-- `running` is written over a row no other task touches. -/
theorem update_running {fields : JobFields} {row : Option Job} (hq : Quiet R jobId)
    (h : JobExec R pid (updateStatus jobId .running fields) s calls (.ok row) s')
    (hs : ∃ row, s.jobs jobId = some row) :
    Running jobId s' := by
  obtain ⟨row₀, hs⟩ := hs
  cases exec_update h with
  | gone hr hn _ =>
    rw [hq _ _ hr, hs] at hn
    cases hn
  | @wrote a b c d loaded current _ hr hl hr₂ hc hj _ hr' =>
    rw [hq _ _ hr₂, hl] at hc
    cases hc
    refine running_other hq hr' ⟨_, by rw [hj, upd_same], ?_⟩
    rw [flush_status (w := .running) _ _ rfl]
    split
    · rename_i he
      exact he.symm
    · rfl

theorem getJobDict_exec {job : JobDict} (h : JobExec R pid (getJobDict jobId) s calls (.ok (some job)) s') :
    ∃ a row, R s a ∧ a.jobs jobId = some row ∧ R a s' := by
  obtain ⟨a, r, a', rest, hr, hx, rfl, hk⟩ := h
  rcases r with e | row
  · cases hk.2.1
  · obtain ⟨hrow, rfl⟩ := getJob_did (jobs_did hx)
    obtain ⟨_, hv, hr'⟩ := hk
    cases row with
    | none => cases hv
    | some row => exact ⟨a', row, hr, hrow, hr'⟩

theorem bare_getJobDict : Bare (getJobDict jobId) := .bind (.await _) fun _ => trivial

/-- A call that has not written `running`. -/
def Before (jobId : Nat) (call : JobCall) : Prop :=
  call.raised = false → ∀ row fields, call.op = .flushJob jobId row fields → fields.status ≠ some .running

theorem not_wrote {calls : List JobCall} (h : ∀ call ∈ calls, Before jobId call) : ¬ WroteRunning jobId calls := by
  intro h
  obtain ⟨call, hm, hok, row, fields, hop, hf⟩ := h
  exact h call hm hok row fields hop hf

theorem answered_append {c₁ c₂ : List JobCall} (h : ∀ call ∈ c₁, call.raised = false) :
    Interrupted (c₁ ++ c₂) ↔ Interrupted c₂ := by
  refine interrupted_append (fun call hm hc => ?_) fun call hm hr => ?_
  · have := interrupts_raised hc
    rw [h call hm] at this
    cases this
  · rw [h call hm] at hr
    cases hr

include hR hrefl

/-- After the row is read. -/
theorem exec_started {job : JobDict} {x : Except Exc JobResult}
    (h : JobExec R pid ((updateStatus jobId .running {}).bind fun _ =>
      (publishLog ctx (.started job.keyPrefix)).bind fun _ => tryImport ctx jobId job) s calls x s')
    (hi : jobId < s.nextId) (hrun : WroteRunning jobId calls) (hacc : Accepted calls) :
    (¬ Interrupted calls → Closed jobId s') ∧
      (Quiet R jobId → (∃ row, s.jobs jobId = some row) → Interrupted calls → Running jobId s') := by
  rcases exec_bind hrefl h with ⟨e, _, h₁⟩ | ⟨row, s₁, c₁, c₂, rfl, h₁, h₂⟩
  · refine absurd hrun (not_wrote fun call hm hok row fields hop => ?_)
    cases exec_update h₁ with
    | loadRaised => cases List.mem_singleton.mp hm; cases hok
    | flushRaised =>
      rcases List.mem_cons.mp hm with rfl | hm
      · cases hop
      · cases List.mem_singleton.mp hm; cases hok
  · have hi₁ := exec_known hR h₁ hi
    rw [answered_append (bare_returned (bare_update _) h₁)]
    have hlog : Prog.Uses (fun o : JobOp => Announces o ∧ ¬ Completes o ∧ o.outside)
        (publishLog ctx (.started job.keyPrefix)) :=
      uses_publishLog ⟨trivial, id, trivial⟩
    have hkeep : Quiet R jobId → ∀ {x c s₂}, JobExec R pid (publishLog ctx (.started job.keyPrefix)) s₁ c x s₂ →
        Running jobId s₁ → Running jobId s₂ := fun hq _ _ _ h =>
      exec_running hq (hlog.mono fun o h => (Or.inr h.2.2 : KeepsRunning jobId o)) h
    rcases exec_bind hrefl h₂ with ⟨e, _, h₃⟩ | ⟨_, s₂, c₃, c₄, rfl, h₃, h₄⟩
    · obtain ⟨first, last, rfl, hraised, _⟩ := ((bare_publishLog _).ends h₃).2 _ rfl
      have hlast : last ∈ first ++ [last] := List.mem_append_right _ (List.mem_singleton.mpr rfl)
      refine ⟨fun hn => absurd ⟨⟨last, hlast, Or.inr ⟨hraised, (exec_uses hlog h₃ last hlast).1⟩⟩,
        fun call hm _ => (exec_uses hlog h₃ call hm).2.1⟩ hn, fun hq hs _ => hkeep hq h₃ (update_running hq h₁ hs)⟩
    · rw [answered_append (bare_returned (bare_publishLog _) h₃)]
      obtain ⟨hclosed, hrunning⟩ := exec_tryImport hR hrefl h₄ (exec_known hR h₃ hi₁) fun call hm =>
        hacc call (List.mem_append_right _ (List.mem_append_right _ hm))
      exact ⟨hclosed, fun hq hs hint => hrunning hq hint (hkeep hq h₃ (update_running hq h₁ hs))⟩

end Pieces

/-- In every execution of `import_job` that has written `running`, the row is settled at the
    end unless an exception came that no handler turns into `failed`; when no other task
    touches the row, then and only then. -/
theorem exit_terminal {R : Db → Db → Prop} {pid jobId : Nat} {ctx : Ctx} {s s' : Db} {calls : List JobCall}
    {x : Except Exc JobResult} (hrefl : ∀ s, R s s) (hR : ∀ a b, R a b → OtherTasks jobId a b) (hi : jobId < s.nextId)
    (h : JobExec R pid (importJob ctx jobId) s calls x s') (hrun : WroteRunning jobId calls) (hacc : Accepted calls) :
    (¬ Interrupted calls → Settled jobId s') ∧ (Quiet R jobId → (Settled jobId s' ↔ ¬ Interrupted calls)) := by
  have hget : (getJobDict jobId).Uses fun o : JobOp => o = .getJob jobId := .bind (.await rfl) fun _ => trivial
  have hbefore : ∀ {x c s₁}, JobExec R pid (getJobDict jobId) s c x s₁ → ∀ call ∈ c, Before jobId call := by
    intro x c s₁ h call hm _ row fields hop
    rw [exec_uses hget h call hm] at hop
    cases hop
  rcases exec_bind hrefl h with ⟨e, _, h₁⟩ | ⟨job, s₁, c₁, c₂, rfl, h₁, h₂⟩
  · exact absurd hrun (not_wrote (hbefore h₁))
  · have hrun₂ : WroteRunning jobId c₂ := by
      obtain ⟨call, hm, hok, row, fields, hop, hf⟩ := hrun
      rcases List.mem_append.mp hm with hm | hm
      · exact absurd hf (hbefore h₁ call hm hok row fields hop)
      · exact ⟨call, hm, hok, row, fields, hop, hf⟩
    cases job with
    | none =>
      have huse : Prog.Uses (fun o : JobOp => o = .publish (.notFound jobId)) (do
          publishLog ctx (.notFound jobId)
          return JobResult.error s!"Job {jobId} not found") := .bind (uses_publishLog rfl) fun _ => trivial
      refine absurd hrun₂ (not_wrote fun call hm _ row fields hop => ?_)
      rw [exec_uses huse h₂ call hm] at hop
      cases hop
    | some job =>
      rw [answered_append (bare_returned bare_getJobDict h₁)]
      obtain ⟨hclosed, hrunning⟩ := exec_started hR hrefl h₂ (exec_known hR h₁ hi) hrun₂ fun call hm =>
        hacc call (List.mem_append_right _ hm)
      refine ⟨fun hn => (hclosed hn).2, fun hq => ⟨fun hset hint => ?_, fun hn => (hclosed hn).2⟩⟩
      obtain ⟨a, row, hr, hrow, hr'⟩ := getJobDict_exec h₁
      exact running_not_settled (hrunning hq ⟨row, by rw [hq _ _ hr', hrow]⟩ hint) hset

/-! ## Two executions -/

def pendingJob : Job := newJob noJobs.2 none "bucket" "" "filespace" "datastore"

def runningJob : Job := { pendingJob with status := .running }

def oneJob : Db := { noJobs.2.put 0 pendingJob with nextId := 1 }

/-- The job is read and set running, and the secrets file is read. -/
def untilToken (ans : Except Exc (Option String)) : List JobCall :=
  [⟨.getJob 0, .ok (some pendingJob)⟩, ⟨.loadJob 0 { status := some .running }, .ok (some pendingJob)⟩,
    ⟨.flushJob 0 pendingJob { status := some .running }, .ok runningJob⟩, ⟨.getLucidlinkToken, ans⟩]

def noToken : String := "No API token available - please reconnect in web UI"

def failedJob : Job := { runningJob with status := .failed, errorMessage := some noToken }

/-- There is no token, and the handler writes `failed`. -/
def failedCalls : List JobCall :=
  untilToken (.ok none) ++
    [⟨.loadJob 0 { status := some .failed, errorMessage := some noToken }, .ok (some runningJob)⟩,
      ⟨.flushJob 0 runningJob { status := some .failed, errorMessage := some noToken }, .ok failedJob⟩]

theorem wrote_untilToken (ans : Except Exc (Option String)) (rest : List JobCall) :
    WroteRunning 0 (untilToken ans ++ rest) :=
  ⟨_, List.mem_append_left _ (List.mem_cons_of_mem _ (List.mem_cons_of_mem _ List.mem_cons_self)), rfl, _,
    _, rfl, rfl⟩

theorem exec_failed : JobExec Eq 0 (importJob ⟨none, none, none, false⟩ 0) oneJob failedCalls (.ok (.failed noToken))
    ((oneJob.put 0 runningJob).put 0 failedJob) :=
  ⟨_, _, _, _, rfl, rfl, rfl, _, _, _, _, rfl, rfl, rfl, _, _, _, _, rfl, rfl, rfl, _, _, _, _, rfl, rfl, rfl,
    _, _, _, _, rfl, rfl, rfl, _, _, _, _, rfl, rfl, rfl, rfl, rfl, rfl⟩

theorem accepted_failed : Accepted failedCalls := by
  intro call hm hr
  simp only [failedCalls, untilToken, List.cons_append, List.nil_append, List.mem_cons, List.not_mem_nil,
    or_false] at hm
  rcases hm with rfl | rfl | rfl | rfl | rfl | rfl <;> cases hr

theorem exit_terminal_failed :
    (¬ Interrupted failedCalls → Settled 0 ((oneJob.put 0 runningJob).put 0 failedJob)) ∧
      (Quiet Eq 0 → (Settled 0 ((oneJob.put 0 runningJob).put 0 failedJob) ↔ ¬ Interrupted failedCalls)) :=
  exit_terminal (fun _ => rfl) (fun a _ h => h ▸ .refl a) Nat.one_pos exec_failed
    (wrote_untilToken _ _) accepted_failed

/-- ARQ cancels the task at its first await after `running`. -/
theorem exec_cancelled : JobExec Eq 0 (importJob ⟨none, none, none, false⟩ 0) oneJob (untilToken (.error .cancelled))
    (.error .cancelled) (oneJob.put 0 runningJob) :=
  ⟨_, _, _, _, rfl, rfl, rfl, _, _, _, _, rfl, rfl, rfl, _, _, _, _, rfl, rfl, rfl, _, _, _, _, rfl, rfl,
    rfl, rfl, rfl, rfl⟩

theorem accepted_cancelled : Accepted (untilToken (.error .cancelled)) := by
  intro call hm hr
  simp only [untilToken, List.mem_cons, List.not_mem_nil, or_false] at hm
  rcases hm with rfl | rfl | rfl | rfl
  · cases hr
  · cases hr
  · cases hr
  · exact id

/-- The coroutine has ended, no statement raised, and the row is running. -/
theorem left_running :
    JobExec Eq 0 (importJob ⟨none, none, none, false⟩ 0) oneJob (untilToken (.error .cancelled)) (.error .cancelled)
        (oneJob.put 0 runningJob) ∧
      WroteRunning 0 (untilToken (.error .cancelled)) ∧ Accepted (untilToken (.error .cancelled)) ∧
      ¬ Settled 0 (oneJob.put 0 runningJob) :=
  ⟨exec_cancelled, wrote_untilToken (.error .cancelled) [], accepted_cancelled,
    running_not_settled ⟨runningJob, rfl, rfl⟩⟩

end Connect.Worker
