/-
  Connect.Worker.Cancel — when a cancel or a delete stops `import_job`.

  The loop asks for `current.status == 'cancelled'` before every batch, and writes
  'running' after every batch. A cancel is lost when one of its writes overwrites it, and
  a deleted row reads as None, which the loop takes for "go on". `CancelOk` rules exactly
  these steps out: no write of a status meets a cancelled row, and no read or progress
  write after the first read of a run finds its row missing.

  In the runs without them every cancel and every delete is honoured
  (`cancel_honoured`): the worker issues `import_file` for at most 25 more keys, and
  returns 'completed' only if it had written so before. `late` counts the imports since
  the first stop in the history; a batch starts only after a read that found the row and
  found it not cancelled, and then there was no stop at all (`Stopped`).
-/

import Connect.Worker.StatusMonotone

namespace Connect.Worker

open Await

abbrev JobHist := List (Event jobSig Exc)

/-- The owner's cancel or delete of `jobId` took effect. -/
def stops (jobId : Nat) : Event jobSig Exc → Bool
  | ⟨_, JobOp.cancelJob i _, .ok updated⟩ => i == jobId && (updated : Bool)
  | ⟨_, JobOp.deleteForUser i _, .ok removed⟩ => i == jobId && (removed : Bool)
  | _ => false

def imports (pid : Nat) : Event jobSig Exc → Bool
  | ⟨p, JobOp.importFile _ _, _⟩ => p == pid
  | _ => false

def wroteCompleted (pid jobId : Nat) : Event jobSig Exc → Bool
  | ⟨p, JobOp.flushJob i _ fields, .ok _⟩ => p == pid && i == jobId && fields.status == some .completed
  | _ => false

/-- The imports of `pid` since the first stop of `jobId`. -/
def late (jobId pid : Nat) : JobHist → Nat
  | [] => 0
  | e :: h => if h.any (stops jobId) then late jobId pid h + (imports pid e).toNat else 0

/-- `pid` wrote 'completed', and no stop came before. -/
def CompletedFirst (jobId pid : Nat) (h : JobHist) : Prop :=
  ∃ newer b older, h = newer ++ b :: older ∧ wroteCompleted pid jobId b = true ∧ older.any (stops jobId) = false

/-! ## Counting -/

theorem late_zero {jobId pid : Nat} {h : JobHist} (hs : h.any (stops jobId) = false) : late jobId pid h = 0 := by
  cases h with
  | nil => rfl
  | cons e h =>
    simp only [List.any_cons, Bool.or_eq_false_iff] at hs
    unfold late
    rw [hs.2]
    simp

theorem late_cons_le (jobId pid : Nat) (e : Event jobSig Exc) (h : JobHist) :
    late jobId pid (e :: h) ≤ late jobId pid h + (imports pid e).toNat := by
  conv => lhs; unfold late
  split <;> omega

theorem imports_other {pid : Nat} {e : Event jobSig Exc} (he : e.pid ≠ pid) : imports pid e = false := by
  unfold imports
  split
  · simpa using he
  · rfl

theorem late_other (jobId : Nat) {pid : Nat} {e : Event jobSig Exc} (h : JobHist) (he : e.pid ≠ pid) :
    late jobId pid (e :: h) = late jobId pid h := by
  by_cases hs : h.any (stops jobId) = true
  · unfold late
    rw [if_pos hs, imports_other he]
    cases h with
    | nil => simp at hs
    | cons e' h => rfl
  · have hs : h.any (stops jobId) = false := by simpa using hs
    rw [late_zero hs]
    unfold late
    rw [hs]
    simp

theorem late_append (jobId : Nat) {pid : Nat} (extra h : JobHist) (he : ∀ e ∈ extra, e.pid ≠ pid) :
    late jobId pid (extra ++ h) = late jobId pid h := by
  induction extra with
  | nil => rfl
  | cons e extra ih =>
    have := ih fun x hx => he x (List.mem_cons_of_mem _ hx)
    rw [List.cons_append, late_other jobId _ (he e List.mem_cons_self), this]

/-- Whatever stop one counts from, the first one counts more. -/
theorem imports_le_late {jobId pid : Nat} {after before : JobHist} {stop : Event jobSig Exc}
    (hs : stops jobId stop = true) :
    after.countP (imports pid) ≤ late jobId pid (after ++ stop :: before) := by
  induction after with
  | nil => exact Nat.zero_le _
  | cons e after ih =>
    have hany : (after ++ stop :: before).any (stops jobId) = true := by simp [hs]
    simp only [List.cons_append, List.countP_cons]
    unfold late
    rw [if_pos hany]
    cases imports pid e <;> simp <;> omega

theorem completedFirst_before {jobId pid : Nat} {after before : JobHist} {stop : Event jobSig Exc}
    (hs : stops jobId stop = true) (hc : CompletedFirst jobId pid (after ++ stop :: before)) :
    ∃ b ∈ before, wroteCompleted pid jobId b = true := by
  obtain ⟨newer, b, older, heq, hb, hold⟩ := hc
  induction after generalizing newer with
  | nil =>
    cases newer with
    | nil =>
      simp only [List.nil_append, List.cons.injEq] at heq
      obtain ⟨rfl, rfl⟩ := heq
      unfold stops at hs
      unfold wroteCompleted at hb
      split at hs <;> simp at hb hs
    | cons x newer =>
      simp only [List.nil_append, List.cons_append, List.cons.injEq] at heq
      exact ⟨b, by simp [heq.2], hb⟩
  | cons e after ih =>
    cases newer with
    | nil =>
      simp only [List.cons_append, List.nil_append, List.cons.injEq] at heq
      rw [← heq.2] at hold
      simp [hs] at hold
    | cons x newer =>
      simp only [List.cons_append, List.cons.injEq] at heq
      exact ih newer heq.2

theorem completedFirst_append {jobId pid : Nat} (extra : JobHist) {h : JobHist} (hc : CompletedFirst jobId pid h) :
    CompletedFirst jobId pid (extra ++ h) := by
  obtain ⟨newer, b, older, rfl, hb, hold⟩ := hc
  exact ⟨extra ++ newer, b, older, by simp, hb, hold⟩

/-! ## The condition -/

/-- The step loses no cancel and overlooks no deletion. -/
def CancelOk (pid : Nat) (w : JobWorld) : (o : JobOp) → Except Exc o.Ret → Prop
  | .flushJob jobId loaded fields, .ok _ => ∀ row, w.st.jobs jobId = some row → row.status = .cancelled →
    (fields.differing loaded).status = none ∧ fields.status ≠ some .completed
  | .getJob _, .ok none => ∀ e ∈ w.hist, e.pid ≠ pid
  | .loadJob _ fields, .ok none => fields.status = some .failed
  | _, _ => True

instance (pid : Nat) (w : JobWorld) (o : JobOp) (r : Except Exc o.Ret) : Decidable (CancelOk pid w o r) :=
  match o, r with
  | .flushJob jobId loaded fields, .ok _ =>
    inferInstanceAs (Decidable (∀ row ∈ w.st.jobs jobId, row.status = .cancelled →
      (fields.differing loaded).status = none ∧ fields.status ≠ some .completed))
  | .getJob _, .ok none => inferInstanceAs (Decidable (∀ e ∈ w.hist, e.pid ≠ pid))
  | .loadJob _ fields, .ok none => inferInstanceAs (Decidable (fields.status = some .failed))
  | .flushJob _ _ _, .error _ | .getJob _, .ok (some _) | .getJob _, .error _ | .loadJob _ _, .ok (some _)
  | .loadJob _ _, .error _ | .createJob _ _ _ _ _, _ | .cancelJob _ _, _ | .timeoutStale _, _
  | .deleteForUser _ _, _ | .clearCompletedForUser _, _ | .now, _ | .publish _, _ | .enqueueJob _, _
  | .loadLlToken _, _ | .getUserToken _, _ | .getLucidlinkToken, _ | .getDatastoreCredentials _ _, _
  | .getUserSetting _ _, _ | .newS3Service _ _ _ _, _ | .listAllObjects _ _, _ | .ensureStructure _, _
  | .importFile _ _, _ | .close, _ | .sleep, _ => .isTrue trivial

/-- A row that was stopped is cancelled or gone. -/
def Stopped (s : Db) (h : JobHist) : Prop :=
  ∀ i, h.any (stops i) = true → i < s.nextId ∧ ∀ row, s.jobs i = some row → row.status = .cancelled

theorem stops_error (i pid : Nat) (o : JobOp) (e : Exc) : stops i ⟨pid, o, .error e⟩ = false := by
  cases o <;> rfl

theorem stops_outside (i pid : Nat) {o : JobOp} {r : Except Exc o.Ret} (h : o.outside) :
    stops i ⟨pid, o, r⟩ = false := by
  cases o <;> first | rfl | exact h.elim

theorem rowcount_pos {s : Db} {p : Nat → Job → Bool} (h : 0 < s.rowcount p) :
    ∃ i row, i < s.nextId ∧ s.jobs i = some row ∧ p i row = true := by
  obtain ⟨i, hi, hp⟩ := List.countP_pos_iff.mp h
  cases hr : s.jobs i with
  | none => simp [hr] at hp
  | some row => exact ⟨i, row, List.mem_range.mp hi, hr, by simpa [hr] using hp⟩

theorem put_cancelled {s : Db} {i j : Nat} {row : Job} (hn : i = j → row.status = .cancelled)
    (hrow : ∀ row, s.jobs i = some row → row.status = .cancelled) :
    ∀ row', (s.put j row).jobs i = some row' → row'.status = .cancelled := by
  intro row' hr
  rw [put_jobs] at hr
  by_cases e : i = j
  · subst e
    simp only [upd_same, Option.some.injEq] at hr
    rw [← hr]
    exact hn rfl
  · rw [upd_ne _ _ e] at hr
    exact hrow row' hr

/-- An operation that stops no row only has to leave cancelled rows cancelled. -/
theorem Stopped.kept {w : JobWorld} {s' : Db} {pid : Nat} {o : JobOp} {r : Except Exc o.Ret}
    (hw : Stopped w.st w.hist) (hno : ∀ i, stops i ⟨pid, o, r⟩ = false) (hnext : w.st.nextId ≤ s'.nextId)
    (hrow : ∀ i < w.st.nextId, (∀ row, w.st.jobs i = some row → row.status = .cancelled) →
      ∀ row, s'.jobs i = some row → row.status = .cancelled) :
    Stopped s' (⟨pid, o, r⟩ :: w.hist) := by
  intro i hi
  rw [List.any_cons, hno i, Bool.false_or] at hi
  obtain ⟨hlt, hcan⟩ := hw i hi
  exact ⟨Nat.lt_of_lt_of_le hlt hnext, hrow i hlt hcan⟩

theorem did_stopped {w : JobWorld} {s' : Db} {pid : Nat} {o : JobOp} {r : Except Exc o.Ret} (h : Did w.st o r s')
    (hs : Ids w.st) (hok : CancelOk pid w o r) (hw : Stopped w.st w.hist) : Stopped s' (⟨pid, o, r⟩ :: w.hist) := by
  cases h with
  | @created _ _ _ _ _ id hid =>
    refine hw.kept (fun _ => rfl) (by simp; omega) fun i hlt hcan row hr => ?_
    rw [put_jobs, upd_ne _ _ (by omega)] at hr
    exact hcan row hr
  | @flushed j loaded current fields hc =>
    refine hw.kept (fun _ => rfl) (by split <;> exact Nat.le_refl _) fun i hlt hcan => ?_
    split
    · exact hcan
    · refine put_cancelled (fun e => ?_) hcan
      subst e
      have hcur := hcan current hc
      have hd := (hok current hc hcur).1
      simp [JobFields.apply, hd, hcur]
  | @cancelled j u row hc _ =>
    intro i hi
    rw [List.any_cons, Bool.or_eq_true] at hi
    have hlt : j < w.st.nextId := by
      rcases Nat.lt_or_ge j w.st.nextId with hlt | hge
      · exact hlt
      · rw [hs j hge] at hc; cases hc
    by_cases e : i = j
    · subst e
      exact ⟨hlt, fun row' hr => by simp at hr; rw [← hr]⟩
    · rcases hi with hi | hi
      · simp [stops, Ne.symm e] at hi
      exact ⟨(hw i hi).1, put_cancelled (fun h => absurd h e) (hw i hi).2⟩
  | @timedOut cutoff =>
    refine hw.kept (fun _ => rfl) (Nat.le_refl _) fun i _ hcan row hr => ?_
    obtain ⟨row', hr', rfl⟩ := Option.map_eq_some_iff.mp hr
    have hrow := hcan row' hr'
    have hlive : row'.stale cutoff = false := by simp [Job.stale, hrow]
    simp [hlive, hrow]
  | @deleted j u =>
    intro i hi
    rw [List.any_cons, Bool.or_eq_true] at hi
    rcases hi with hi | hi
    · simp only [stops, Bool.and_eq_true, beq_iff_eq, decide_eq_true_eq] at hi
      obtain ⟨rfl, hpos⟩ := hi
      obtain ⟨k, row, hlt, hr, hp⟩ := rowcount_pos hpos
      simp only [Bool.and_eq_true, beq_iff_eq] at hp
      obtain ⟨rfl, hu⟩ := hp
      refine ⟨hlt, fun row' hr' => ?_⟩
      simp only [remove_jobs, hr, Option.filter, hu, beq_self_eq_true, Bool.and_self, Bool.not_true] at hr'
      cases hr'
    · exact ⟨(hw i hi).1, fun row hr => (hw i hi).2 row (Option.eq_some_of_filter_eq_some hr)⟩
  | cleared =>
    exact hw.kept (fun _ => rfl) (Nat.le_refl _) fun i _ hcan row hr => hcan row (Option.eq_some_of_filter_eq_some hr)
  | missed => exact hw.kept (fun i => by simp [stops]) (Nat.le_refl _) fun _ _ hcan => hcan
  | enqueued | got | loaded => exact hw.kept (fun _ => rfl) (Nat.le_refl _) fun _ _ hcan => hcan
  | raised => exact hw.kept (fun i => stops_error i pid _ _) (Nat.le_refl _) fun _ _ hcan => hcan
  | answered ho => exact hw.kept (fun i => stops_outside i pid ho) (Nat.le_refl _) fun _ _ hcan => hcan

/-! ## The law of the tasks -/

structure CancelInv (w : JobWorld) : Prop where
  ids : Ids w.st
  stopped : Stopped w.st w.hist

/-- What the others do, seen by `pid`: they only add to the history. -/
def CancelRely (pid : Nat) (a b : JobWorld) : Prop := ∃ extra, b.hist = extra ++ a.hist ∧ ∀ e ∈ extra, e.pid ≠ pid

structure CancelGuar (pid : Nat) (t : JobTask) (a b : JobWorld) : Prop where
  inv : CancelInv b
  one : ∃ e, b.hist = e :: a.hist ∧ e.pid = pid
  late : ∀ ctx jobId, t = .importJob ctx jobId → late jobId pid b.hist ≤ 25

abbrev cancelTaskLaw (pid : Nat) (t : JobTask) : Law JobWorld jobSig Exc :=
  jobs.law CancelInv CancelRely (fun pid => CancelGuar pid t) CancelOk pid

/-- What a finished task leaves. -/
def CancelPost (pid : Nat) (t : JobTask) (x : Except Exc Reply) (w : JobWorld) : Prop :=
  ∀ ctx jobId result, t = .importJob ctx jobId → x = .ok (.imported result) → result.status = "completed" →
    CompletedFirst jobId pid w.hist

theorem CancelRely.refl (pid : Nat) (w : JobWorld) : CancelRely pid w w := ⟨[], rfl, by simp⟩

theorem CancelRely.trans {pid : Nat} {a b c : JobWorld} (h : CancelRely pid a b) (h' : CancelRely pid b c) :
    CancelRely pid a c := by
  obtain ⟨x, hx, hxp⟩ := h
  obtain ⟨y, hy, hyp⟩ := h'
  refine ⟨y ++ x, by rw [hy, hx, List.append_assoc], fun e he => ?_⟩
  rcases List.mem_append.mp he with he | he
  · exact hyp e he
  · exact hxp e he

theorem rely_late {pid jobId : Nat} {a b : JobWorld} (h : CancelRely pid a b) :
    late jobId pid b.hist = late jobId pid a.hist := by
  obtain ⟨extra, hh, hp⟩ := h
  rw [hh, late_append jobId extra _ hp]

/-- An operation keeps the invariant, and adds itself to the history. -/
theorem act_inv {pid : Nat} {t : JobTask} {w w' : JobWorld} {o : JobOp} {r : Except Exc o.Ret} (hi : CancelInv w)
    (ha : (cancelTaskLaw pid t).act w o r w') : CancelInv w' ∧ w'.hist = ⟨pid, o, r⟩ :: w.hist := by
  obtain ⟨hok, hd, hh⟩ := act_did ha
  refine ⟨⟨(did_ids hd hi.ids).1, ?_⟩, hh⟩
  rw [hh]
  exact did_stopped hd hi.ids hok hi.stopped

section Import

variable {pid jobId : Nat} {ctx : Ctx} {α : Type}

abbrev importLaw (pid jobId : Nat) (ctx : Ctx) : Law JobWorld jobSig Exc := cancelTaskLaw pid (.importJob ctx jobId)

/-- A run of `import_job` past its first read, with at most `k` imports since the first stop. -/
structure At (jobId pid k : Nat) (w : JobWorld) : Prop where
  late : late jobId pid w.hist ≤ k
  read : ∃ e ∈ w.hist, e.pid = pid

theorem at_rely {k : Nat} {a b : JobWorld} (hr : CancelRely pid a b) (h : At jobId pid k a) : At jobId pid k b := by
  refine ⟨by rw [rely_late hr]; exact h.late, ?_⟩
  obtain ⟨e, he, hp⟩ := h.read
  obtain ⟨extra, hh, _⟩ := hr
  exact ⟨e, by rw [hh]; exact List.mem_append_right _ he, hp⟩

theorem At.mono {k k' : Nat} {w : JobWorld} (h : At jobId pid k w) (hk : k ≤ k') : At jobId pid k' w :=
  ⟨Nat.le_trans h.late hk, h.read⟩

/-- An operation of the run: it is promised if it imports no 26th key. -/
theorem act_at {k k' : Nat} {w w' : JobWorld} {o : JobOp} {r : Except Exc o.Ret} (hi : CancelInv w)
    (hw : At jobId pid k w)
    (hk : k + (imports pid ⟨pid, o, r⟩).toNat ≤ k') (hk' : k' ≤ 25) (ha : (importLaw pid jobId ctx).act w o r w') :
    CancelGuar pid (.importJob ctx jobId) w w' ∧ At jobId pid k' w' := by
  obtain ⟨hi', hh⟩ := act_inv hi ha
  have hle : late jobId pid w'.hist ≤ k' := by
    rw [hh]
    have := late_cons_le jobId pid ⟨pid, o, r⟩ w.hist
    have := hw.late
    omega
  refine ⟨⟨hi', ⟨_, hh, rfl⟩, fun c j he => ?_⟩, hle, ⟨_, by rw [hh]; exact List.mem_cons_self, rfl⟩⟩
  cases he
  omega

theorem quiet_imports {o : JobOp} (ho : QuietOp jobId o) (r : Except Exc o.Ret) :
    imports pid ⟨pid, o, r⟩ = false := by
  cases o <;> first | rfl | exact ho.elim

theorem act_quiet {k : Nat} (hk : k ≤ 25) {w w' : JobWorld} {o : JobOp} {r : Except Exc o.Ret} (ho : QuietOp jobId o)
    (hi : CancelInv w) (hw : At jobId pid k w) (ha : (importLaw pid jobId ctx).act w o r w') :
    CancelGuar pid (.importJob ctx jobId) w w' ∧ At jobId pid k w' :=
  act_at hi hw (by rw [quiet_imports ho]; exact Nat.le_refl k) hk ha

theorem wp_quiet {k : Nat} (hk : k ≤ 25) {p : JobProg α} (hp : p.Uses (QuietOp jobId)) {w : JobWorld}
    (hw : At jobId pid k w) : wp (importLaw pid jobId ctx) p (fun _ => At jobId pid k) w := by
  apply wp_uses (O := QuietOp jobId) (P := At jobId pid k)
  · exact fun a b hr h => at_rely hr h
  · exact fun w o r w' ho hw hi ha => act_quiet hk ho hi hw ha
  · exact hp
  · exact hw

/-- The outcomes of a run: at most 25 late imports, and 'completed' only if it was written first. -/
def Outcome (jobId pid : Nat) (x : Except Exc JobResult) (w : JobWorld) : Prop :=
  At jobId pid 25 w ∧ ∀ result, x = .ok result → result.status = "completed" → CompletedFirst jobId pid w.hist

theorem outcome_error {e : Exc} {w : JobWorld} (h : At jobId pid 25 w) : Outcome jobId pid (.error e) w :=
  ⟨h, fun _ h => by cases h⟩

theorem outcome_other {result : JobResult} {w : JobWorld} (h : At jobId pid 25 w) (hr : result.status ≠ "completed") :
    Outcome jobId pid (.ok result) w :=
  ⟨h, fun _ he hs => by cases he; exact absurd hs hr⟩

theorem completedFirst_rely {a b : JobWorld} (hr : CancelRely pid a b) (h : CompletedFirst jobId pid a.hist) :
    CompletedFirst jobId pid b.hist := by
  obtain ⟨extra, hh, _⟩ := hr
  rw [hh]
  exact completedFirst_append extra h

/-- After the completed write nothing is lost any more. -/
theorem wp_afterCompleted {p : JobProg α} (hp : p.Uses (QuietOp jobId)) {w : JobWorld} (hw : At jobId pid 25 w)
    (hc : CompletedFirst jobId pid w.hist) :
    wp (importLaw pid jobId ctx) p (fun _ w => At jobId pid 25 w ∧ CompletedFirst jobId pid w.hist) w := by
  apply wp_uses (O := QuietOp jobId) (P := fun w => At jobId pid 25 w ∧ CompletedFirst jobId pid w.hist)
  · exact fun a b hr h => ⟨at_rely hr h.1, completedFirst_rely hr h.2⟩
  · intro w o r w' ho hw hi ha
    obtain ⟨hg, hat⟩ := act_quiet (Nat.le_refl 25) ho hi hw.1 ha
    obtain ⟨e, he, _⟩ := hg.one
    refine ⟨hg, hat, ?_⟩
    rw [he]
    exact completedFirst_append [e] hw.2
  · exact hp
  · exact ⟨hw, hc⟩

/-- A status read of the loop that does not stop it: there was no stop at all. -/
theorem wp_readStatus {k : Nat} (hk : k ≤ 25) {w : JobWorld} (hw : At jobId pid k w) :
    wp (importLaw pid jobId ctx) (getJob jobId) (fun x w => At jobId pid k w ∧
      ∀ current, x = .ok current → isCancelled current = false → At jobId pid 0 w) w := by
  refine wp_await fun w₁ hr hi r w₂ ha => ?_
  have hw₁ := at_rely hr hw
  obtain ⟨hg, hat⟩ := act_quiet hk (o := JobOp.getJob jobId) rfl hi hw₁ ha
  refine ⟨hg, hat, fun current hx hn => ?_⟩
  subst hx
  obtain ⟨hok, hd, hh⟩ := act_did ha
  have hrow : current = w₁.st.jobs jobId := by
    generalize w₂.st = s₂ at hd
    cases hd with
    | got => rfl
    | answered h => exact h.elim
  cases hc : w₁.st.jobs jobId with
  | none =>
    rw [hrow, hc] at hok
    obtain ⟨e, he, hp⟩ := hw₁.read
    exact absurd hp (hok e he)
  | some row =>
    have hnot : w₁.hist.any (stops jobId) = false := by
      rw [Bool.eq_false_iff]
      intro hany
      have := (hi.stopped jobId hany).2 row hc
      rw [hrow, hc] at hn
      simp [isCancelled, this] at hn
    refine ⟨?_, hat.read⟩
    rw [hh]
    have := late_cons_le jobId pid ⟨pid, JobOp.getJob jobId, .ok current⟩ w₁.hist
    rw [late_zero hnot] at this
    exact this

theorem wp_runBatch {k : Nat} (bucketName : String) (batch : List String) (hk : k + batch.length ≤ 25) {w : JobWorld}
    (hw : At jobId pid k w) :
    wp (importLaw pid jobId ctx) (runBatch bucketName batch) (fun _ => At jobId pid (k + batch.length)) w := by
  unfold runBatch
  induction batch generalizing k w with
  | nil => exact hw
  | cons key batch ih =>
    simp only [List.length_cons] at hk
    simp only [List.map_cons, gather, Prog.bind_def]
    have hlen : k + (key :: batch).length = k + 1 + batch.length := by simp only [List.length_cons]; omega
    have hfirst : wp (importLaw pid jobId ctx) (importFile key (llPath bucketName key)).attempt
        (fun _ => At jobId pid (k + 1)) w := by
      refine wp_attempt.mpr (wp_await fun w₁ hr hi r w₂ ha => ?_)
      refine act_at hi (at_rely hr hw) ?_ (by omega) ha
      have := Bool.toNat_le (imports pid ⟨pid, JobOp.importFile key (llPath bucketName key), r⟩)
      omega
    rw [hlen]
    refine wp_seq hfirst (fun e w h => h.mono (by omega)) fun r w h => ?_
    have hrest : ∀ r, wp (importLaw pid jobId ctx)
        ((gather (batch.map fun key => importFile key (llPath bucketName key))).bind fun rs => .ret (r :: rs))
        (fun _ => At jobId pid (k + 1 + batch.length)) w := fun r =>
      wp_seq (ih (by omega) h) (fun _ _ h => h) fun _ _ h => h
    rcases r with (_ | _ | _) | _
    · exact hrest _
    · exact hrest _
    · exact h.mono (by omega)
    · exact hrest _

theorem wp_batchLoop (bucketName : String) (keys : List String) (is : List Nat) (p : Progress) {w : JobWorld}
    (hw : At jobId pid 25 w) :
    wp (importLaw pid jobId ctx) (batchLoop ctx jobId bucketName keys is p) (fun _ => At jobId pid 25) w := by
  induction is generalizing p w with
  | nil => exact hw
  | cons i is ih =>
    refine wp_bind.mpr (wp_mono ?_ (wp_readStatus (Nat.le_refl 25) hw))
    intro x w ⟨hw, hgo⟩
    cases x with
    | error e => exact hw
    | ok current =>
      simp only [andThen_ok]
      cases hc : isCancelled current with
      | true => exact hw
      | false =>
        have hlen : (slice keys i batchSize).length ≤ 25 := by
          rw [length_slice]
          exact Nat.min_le_left _ _
        have hbatch : wp (importLaw pid jobId ctx) (runBatch bucketName (slice keys i batchSize))
            (fun _ => At jobId pid 25) w :=
          wp_mono (fun _ _ h => h.mono (by omega)) (wp_runBatch bucketName _ (by omega) (hgo current rfl hc))
        refine wp_seq hbatch (fun _ _ h => h) fun results w h => ?_
        refine wp_seq (wp_quiet (Nat.le_refl 25) (uses_publishLog trivial) h) (fun _ _ h => h) fun _ w h => ?_
        refine wp_seq (wp_quiet (Nat.le_refl 25) (uses_updateStatus (Or.inl rfl) ⟨rfl, rfl⟩) h)
          (fun _ _ h => h) fun _ w h => ?_
        refine wp_seq (wp_quiet (Nat.le_refl 25) (uses_op JobOp.sleep trivial) h) (fun _ _ h => h) fun _ w h => ?_
        exact ih _ h

/-- Writing 'completed' meets no stopped row. -/
theorem wp_completed {fields : JobFields} (hf : fields.startedAt = none ∧ fields.completedAt = none) {w : JobWorld}
    (hw : At jobId pid 25 w) :
    wp (importLaw pid jobId ctx) (updateStatus jobId .completed fields) (fun x w => At jobId pid 25 w ∧
      ∀ row, x = .ok row → CompletedFirst jobId pid w.hist) w := by
  have hq : WorkerFields { fields with status := some .completed } := ⟨⟨_, rfl, Or.inr (Or.inl rfl)⟩, hf⟩
  refine wp_bind.mpr (wp_await fun w₁ hr₁ hi₁ r w₂ ha₁ => ?_)
  obtain ⟨hg₁, hat₂⟩ := act_quiet (Nat.le_refl 25) (o := JobOp.loadJob jobId _) ⟨rfl, hq⟩ hi₁ (at_rely hr₁ hw) ha₁
  refine ⟨hg₁, ?_⟩
  rcases r with e | loaded
  · exact ⟨hat₂, fun row h => by cases h⟩
  cases loaded with
  | none =>
    obtain ⟨hok, _, _⟩ := act_did ha₁
    cases hok
  | some loaded =>
    refine wp_bind.mpr (wp_await fun w₃ hr₃ hi₃ r w₄ ha₃ => ?_)
    obtain ⟨hg₃, hat₄⟩ :=
      act_quiet (Nat.le_refl 25) (o := JobOp.flushJob jobId loaded _) ⟨rfl, hq⟩ hi₃ (at_rely hr₃ hat₂) ha₃
    refine ⟨hg₃, ?_⟩
    rcases r with e | row
    · exact ⟨hat₄, fun row h => by cases h⟩
    refine ⟨hat₄, fun _ _ => ?_⟩
    obtain ⟨hok, hd, hh⟩ := act_did ha₃
    have hcur : ∃ current, w₃.st.jobs jobId = some current := by
      generalize w₄.st = s₄ at hd
      cases hd with
      | flushed hc => exact ⟨_, hc⟩
      | answered h => exact h.elim
    obtain ⟨current, hc⟩ := hcur
    have hnot : w₃.hist.any (stops jobId) = false := by
      rw [Bool.eq_false_iff]
      intro hany
      exact (hok current hc ((hi₃.stopped jobId hany).2 current hc)).2 rfl
    refine ⟨[], _, _, hh, ?_, hnot⟩
    simp [wroteCompleted]

theorem wp_finishJob (total : Nat) (p : Progress) {w : JobWorld} (hw : At jobId pid 25 w) :
    wp (importLaw pid jobId ctx) (finishJob ctx jobId total p) (Outcome jobId pid) w := by
  refine wp_bind.mpr (wp_mono ?_ (wp_readStatus (Nat.le_refl 25) hw))
  intro x w ⟨hw, _⟩
  cases x with
  | error e => exact outcome_error hw
  | ok current =>
    simp only [andThen_ok]
    split
    · refine wp_seq (wp_quiet (Nat.le_refl 25) (uses_publishLog trivial) hw) (fun _ _ h => outcome_error h)
        fun _ w h => ?_
      exact outcome_other h (by simp [JobResult.status])
    · refine wp_bind.mpr (wp_mono ?_ (wp_completed ⟨rfl, rfl⟩ hw))
      intro x w ⟨hw, hdone⟩
      cases x with
      | error e => exact outcome_error hw
      | ok row =>
        refine wp_seq (wp_afterCompleted (uses_publishLog trivial) hw (hdone row rfl))
          (fun _ _ h => outcome_error h.1) fun _ w h => ?_
        exact ⟨h.1, fun _ _ _ => h.2⟩

theorem wp_noKeys {w : JobWorld} (hw : At jobId pid 25 w) :
    wp (importLaw pid jobId ctx) (noKeys ctx jobId) (Outcome jobId pid) w := by
  refine wp_seq (wp_quiet (Nat.le_refl 25) (uses_publishLog trivial) hw) (fun _ _ h => outcome_error h)
    fun _ w h => ?_
  refine wp_bind.mpr (wp_mono ?_ (wp_completed ⟨rfl, rfl⟩ h))
  intro x w ⟨hw, hdone⟩
  cases x with
  | error e => exact outcome_error hw
  | ok row => exact ⟨hw, fun _ _ _ => hdone row rfl⟩

theorem wp_importKeys (job : JobDict) (keys : List String) {w : JobWorld} (hw : At jobId pid 25 w) :
    wp (importLaw pid jobId ctx) (importKeys ctx job jobId keys) (Outcome jobId pid) w := by
  refine wp_seq (wp_quiet (Nat.le_refl 25) (uses_updateStatus (Or.inl rfl) ⟨rfl, rfl⟩) hw)
    (fun _ _ h => outcome_error h) fun _ w h => ?_
  refine wp_seq (wp_quiet (Nat.le_refl 25) (uses_publishLog trivial) h) (fun _ _ h => outcome_error h) fun _ w h => ?_
  refine wp_seq (wp_quiet (Nat.le_refl 25) (uses_publishLog trivial) h) (fun _ _ h => outcome_error h) fun _ w h => ?_
  refine wp_seq (wp_quiet (Nat.le_refl 25) (uses_createFolders _) h) (fun _ _ h => outcome_error h) fun _ w h => ?_
  refine wp_seq (wp_quiet (Nat.le_refl 25) (uses_op (JobOp.getJob jobId) rfl) h)
    (fun _ _ h => outcome_error h) fun current w h => ?_
  split
  · refine wp_seq (wp_quiet (Nat.le_refl 25) (uses_publishLog trivial) h) (fun _ _ h => outcome_error h)
      fun _ w h => ?_
    exact outcome_other h (by simp [JobResult.status])
  · refine wp_seq (wp_quiet (Nat.le_refl 25) (uses_publishLog trivial) h) (fun _ _ h => outcome_error h)
      fun _ w h => ?_
    refine wp_seq (wp_batchLoop _ _ _ _ h) (fun _ _ h => outcome_error h) fun p w h => ?_
    exact wp_finishJob _ p h

theorem wp_importJobBody (job : JobDict) (r : Resolved) {w : JobWorld} (hw : At jobId pid 25 w) :
    wp (importLaw pid jobId ctx) (importJobBody ctx job jobId r) (Outcome jobId pid) w := by
  refine wp_seq (wp_quiet (Nat.le_refl 25) (uses_op (JobOp.newS3Service _ _ _ _) trivial) hw)
    (fun _ _ h => outcome_error h) fun _ w h => ?_
  refine wp_seq (wp_quiet (Nat.le_refl 25) (uses_publishLog trivial) h) (fun _ _ h => outcome_error h) fun _ w h => ?_
  refine wp_seq (wp_quiet (Nat.le_refl 25) (uses_publishLog trivial) h) (fun _ _ h => outcome_error h) fun _ w h => ?_
  refine wp_seq (wp_quiet (Nat.le_refl 25) (uses_op (JobOp.listAllObjects _ _) trivial) h)
    (fun _ _ h => outcome_error h) fun keys w h => ?_
  split
  · exact wp_noKeys h
  · exact wp_importKeys job keys h

theorem wp_jobFailed (e : Exc) {w : JobWorld} (hw : At jobId pid 25 w) :
    wp (importLaw pid jobId ctx) (jobFailed ctx jobId e) (Outcome jobId pid) w := by
  unfold jobFailed
  split
  · refine wp_seq (wp_quiet (Nat.le_refl 25) (uses_publishLog trivial) hw) (fun _ _ h => outcome_error h)
      fun _ w h => ?_
    refine wp_seq (wp_quiet (Nat.le_refl 25) (uses_updateStatus (Or.inr (Or.inr rfl)) ⟨rfl, rfl⟩) h)
      (fun _ _ h => outcome_error h) fun _ w h => ?_
    exact outcome_other h (by simp [JobResult.status])
  · exact outcome_error hw

theorem wp_tryImport (job : JobDict) {w : JobWorld} (hw : At jobId pid 25 w) :
    wp (importLaw pid jobId ctx) (tryImport ctx jobId job) (Outcome jobId pid) w := by
  refine wp_seq (wp_quiet (Nat.le_refl 25) (uses_resolveCredentials job).attempt hw)
    (fun _ _ h => outcome_error h) fun x w h => ?_
  cases x with
  | error e => exact wp_jobFailed e h
  | ok r =>
    have hbody : wp (importLaw pid jobId ctx)
        ((importJobBody ctx job jobId r).catching (jobFailed ctx jobId)) (Outcome jobId pid) w := by
      refine wp_catching.mpr (wp_mono ?_ (wp_importJobBody job r h))
      intro x w h
      cases x with
      | ok result => exact h
      | error e => exact wp_jobFailed e h.1
    refine wp_finally.mpr (wp_mono ?_ hbody)
    intro x w ⟨hw, hdone⟩
    cases x with
    | error e =>
      refine wp_mono (fun y w h => ?_) (wp_quiet (Nat.le_refl 25) (uses_op JobOp.close trivial) hw)
      cases y <;> exact outcome_error h
    | ok result =>
      by_cases hs : result.status = "completed"
      · refine wp_mono (fun y w h => ?_) (wp_afterCompleted (uses_op JobOp.close trivial) hw (hdone result rfl hs))
        cases y with
        | error e => exact outcome_error h.1
        | ok _ => exact ⟨h.1, fun _ _ _ => h.2⟩
      · refine wp_mono (fun y w h => ?_) (wp_quiet (Nat.le_refl 25) (uses_op JobOp.close trivial) hw)
        cases y with
        | error e => exact outcome_error h
        | ok _ => exact outcome_other h hs

theorem wp_importJobHonours {w : JobWorld} (hf : ∀ e ∈ w.hist, e.pid ≠ pid) :
    wp (importLaw pid jobId ctx) (importJob ctx jobId)
      (fun x w => ∀ result, x = .ok result → result.status = "completed" →
      CompletedFirst jobId pid w.hist) w := by
  refine wp_bind.mpr (wp_bind.mpr (wp_await fun w₁ hr hi r w₂ ha => ?_))
  have hlate : late jobId pid w₁.hist = 0 := by
    rw [rely_late hr]
    have := late_append jobId w.hist [] hf
    rw [List.append_nil] at this
    rw [this]
    rfl
  obtain ⟨hi', hh⟩ := act_inv hi ha
  have hat : At jobId pid 25 w₂ := by
    refine ⟨?_, ⟨_, by rw [hh]; exact List.mem_cons_self, rfl⟩⟩
    rw [hh]
    have := late_cons_le jobId pid ⟨pid, JobOp.getJob jobId, r⟩ w₁.hist
    have := Bool.toNat_le (imports pid ⟨pid, JobOp.getJob jobId, r⟩)
    omega
  refine ⟨⟨hi', ⟨_, hh, rfl⟩, fun c j he => by cases he; exact hat.late⟩, ?_⟩
  rcases r with e | row
  · intro _ h; cases h
  simp only [Prog.pure_def]
  cases row with
  | none =>
    refine wp_seq (wp_quiet (Nat.le_refl 25) (uses_publishLog trivial) hat) (fun _ _ _ _ h => by cases h)
      fun _ w h => ?_
    intro result he hs
    cases he
    simp [JobResult.status] at hs
  | some row =>
    refine wp_mono (Q := Outcome jobId pid) (fun _ _ h => h.2) ?_
    refine wp_seq (wp_quiet (Nat.le_refl 25) (uses_updateStatus (Or.inl rfl) ⟨rfl, rfl⟩) hat)
      (fun _ _ h => outcome_error h) fun _ w h => ?_
    refine wp_seq (wp_quiet (Nat.le_refl 25) (uses_publishLog trivial) h) (fun _ _ h => outcome_error h)
      fun _ w h => ?_
    exact wp_tryImport _ h

end Import

def cancelLaw (good : Config jobs → Event jobSig Exc → Prop)
    (hgood : ∀ c e, good c e → CancelOk e.pid c.w e.op e.ans) :
    Sound jobs good where
  inv := CancelInv
  rely := CancelRely
  guar := CancelGuar
  allow := CancelOk
  post := CancelPost
  refl := .refl
  trans _ _ _ _ := .trans
  init s hs := ⟨fun i _ => by rw [show s.jobs = _ from hs.1], fun i h => by simp at h⟩
  keep _ _ _ _ _ hg := hg.inv
  others pid t q w w' hne _ hg := by
    obtain ⟨e, he, hp⟩ := hg.one
    exact ⟨[e], he, fun x hx => by rw [List.mem_singleton.mp hx, hp]; exact hne⟩
  outside w e s hi hx := by
    obtain ⟨hj, hn, _⟩ := env_jobs hx
    refine ⟨⟨fun i h => ?_, fun i h => ?_⟩, fun q => .refl q _⟩
    · rw [show s.jobs = _ from hj]
      exact hi.ids i (by rw [show w.st.nextId = _ from hn.symm]; exact h)
    · rw [show s.jobs = _ from hj, show s.nextId = _ from hn]
      exact hi.stopped i h
  allowed := hgood
  stable pid t x w w' hr hp ctx jobId result ht hx hs := completedFirst_rely hr (hp ctx jobId result ht hx hs)
  code pid t w hi _ hf := by
    show wp (cancelTaskLaw pid t) t.code (CancelPost pid t) w
    by_cases ht : ∃ ctx jobId, t = .importJob ctx jobId
    · obtain ⟨ctx, jobId, rfl⟩ := ht
      refine wp_bind.mpr (wp_mono (fun x w h => ?_) (wp_importJobHonours hf))
      cases x with
      | error e => intro c j result _ hx; cases hx
      | ok r =>
        intro c j result ht hx hs
        cases ht
        cases hx
        exact h _ rfl hs
    · have hother : wp (cancelTaskLaw pid t) t.code (fun _ _ => True) w := by
        apply wp_uses (O := TaskOp t) (P := fun _ => True)
        · exact fun _ _ _ _ => trivial
        · intro w o r w' _ _ hi ha
          obtain ⟨hi', hh⟩ := act_inv hi ha
          exact ⟨⟨hi', ⟨_, hh, rfl⟩, fun c j he => absurd ⟨c, j, he⟩ ht⟩, trivial⟩
        · exact uses_code t
        · trivial
      exact wp_mono (fun _ _ _ c j _ he => absurd ⟨c, j, he⟩ ht) hother

/-! ## Runs -/

/-- Every cancel and delete so far is honoured: the worker of the job has issued
    `import_file` for at most 25 keys since, and has returned 'completed' only if it had
    written it before. -/
def Honoured (c : Config jobSystem) : Prop :=
  ∀ pid ctx jobId after stop before, c.task pid = some (.importJob ctx jobId) →
    bodyHist c.w.hist = after ++ stop :: before → stops jobId stop = true →
    after.countP (imports pid) ≤ 25 ∧
      ∀ result, c.procs pid = some (.ret (some (.imported result))) → result.status = "completed" →
        ∃ b ∈ before, wroteCompleted pid jobId b = true

/-- The condition, for an operation of the system. -/
def StepCancelOk (c : Config jobSystem) (e : Event (TaskSig jobSig) Exc) : Prop :=
  ∀ b, bodyEvent e = some b → CancelOk b.pid (inner c.w) b.op b.ans

def cancelRunLaw : Sound jobSystem StepCancelOk :=
  guardLaw (cancelLaw (fun c e => CancelOk e.pid c.w e.op e.ans) fun _ _ h => h) StepCancelOk fun _ _ b h hb => h b hb

theorem late_bounded {c : Config jobSystem} (h : Reach StepCancelOk c) {pid : Nat} {ctx : Ctx} {jobId : Nat}
    (ht : c.task pid = some (.importJob ctx jobId)) : late jobId pid (bodyHist c.w.hist) ≤ 25 := by
  have hall := cancelRunLaw.always
    (fun pid t w => ∀ ctx jobId, t = JobTask.importJob ctx jobId → late jobId pid (bodyHist w.hist) ≤ 25) ?_ ?_ ?_ h
  · exact hall pid _ ht ctx jobId rfl
  · intro pid t w hf ctx jobId _
    have hfree : ∀ e ∈ bodyHist w.hist, e.pid ≠ pid := by
      intro b hb
      obtain ⟨e, he, heb⟩ := List.mem_filterMap.mp hb
      rw [bodyEvent_pid heb]
      exact hf e he
    have := late_append jobId (bodyHist w.hist) [] hfree
    rw [List.append_nil] at this
    rw [this]
    exact Nat.zero_le _
  · intro pid t a b hr hp ctx jobId ht
    have hl : late jobId pid (bodyHist b.hist) = late jobId pid (bodyHist a.hist) := rely_late hr
    rw [hl]
    exact hp ctx jobId ht
  · intro pid t a b _ hg hp ctx jobId ht
    rcases hg with hg | hsame
    · exact hg.late ctx jobId ht
    · have : bodyHist b.hist = bodyHist a.hist := congrArg World.hist hsame
      rw [this]
      exact hp ctx jobId ht

/-- In a run in which no status write meets a cancelled row and no read of a run but its
    first finds the row gone, every cancel and every delete is honoured at every moment. -/
theorem cancel_honoured {s : jobSystem.State} (hs : jobSystem.init s) (f : Sched jobSystem) (n : Nat)
    (hok : ∀ m < n, ∀ e, event (conf s f m) (f m) = some e → StepCancelOk (conf s f m) e) :
    Honoured (conf s f n) := by
  have hr : Reach StepCancelOk (conf s f n) := conf_reach hs hok
  intro pid ctx jobId after stop before ht hh hstop
  have hlate := late_bounded hr ht
  rw [hh] at hlate
  refine ⟨Nat.le_trans (imports_le_late hstop) hlate, fun result hp hres => ?_⟩
  obtain ⟨t, ht', hw⟩ := (cancelRunLaw.keeps hr).2 pid _ hp
  rw [ht] at ht'
  cases ht'
  have hdone : CompletedFirst jobId pid (bodyHist (conf s f n).w.hist) := hw ctx jobId result rfl rfl hres
  rw [hh] at hdone
  exact completedFirst_before hstop hdone

/-- The cancel falls between the read and the first write of `import_job`, which imports
    the one key and reports the job completed. -/
def cancelledThenCompleted : Sched jobSystem := sched
  ([.start (.addJob none "bucket" "" "filespace" "datastore" true), .run 0 (obey []), .run 0 (obey []),
    .start (.importJob ⟨some "a", none, none, false⟩ 0), .run 1 (obey ["key"]), .run 1 (obey ["key"]),
    .run 1 (obey ["key"]),
    .start (.cancelJob 0 none), .run 2 (obey [])] ++ List.replicate 19 (.run 1 (obey ["key"])))
  (.env (.tick 0))

theorem cancel_lost :
    jobSystem.init noJobs ∧ (conf noJobs cancelledThenCompleted 28).procs 1 =
      some (.ret (some (.imported (.completed 1 0 1 0)))) ∧
        ¬ Honoured (conf noJobs cancelledThenCompleted 28) := by
  refine ⟨⟨rfl, rfl, rfl⟩, rfl, fun h => ?_⟩
  have hdone :=
    (h 1 ⟨some "a", none, none, false⟩ 0 ((bodyHist (conf noJobs cancelledThenCompleted 28).w.hist).take 19)
      ⟨2, JobOp.cancelJob 0 none, .ok true⟩
      ((bodyHist (conf noJobs cancelledThenCompleted 28).w.hist).drop 20) rfl rfl rfl).2 _ rfl rfl
  obtain ⟨b, hb, hw⟩ := hdone
  have hnone : ((bodyHist (conf noJobs cancelledThenCompleted 28).w.hist).drop 20).any
      (wroteCompleted 1 0) = false := by
    decide
  rw [List.any_eq_false] at hnone
  exact hnone b hb hw

/-- The job of thirty keys is cancelled after `k` operations of the run that imports them. -/
def cancelledAfter (k : Nat) : List (Choice jobSystem) :=
  [.start (.addJob none "bucket" "" "filespace" "datastore" true), .run 0 (obey []), .run 0 (obey []),
    .start (.importJob ⟨some "a", none, none, false⟩ 0)] ++ List.replicate k (.run 1 (obey thirtyKeys)) ++
    [.start (.cancelJob 0 none), .run 2 (obey [])] ++ List.replicate (50 - k) (.run 1 (obey thirtyKeys))

/-- The job cancelled after `k` operations ends as cancelled, and the cancel was honoured. -/
def CancelledMidway (k : Nat) : Prop :=
  ∃ result, (conf noJobs (sched (cancelledAfter k) (.env (.tick 0))) 56).procs 1 =
      some (.ret (some (.imported result))) ∧
    result.status = "cancelled" ∧ Honoured (conf noJobs (sched (cancelledAfter k) (.env (.tick 0))) 56)

/-- While the folders are made, inside the write at the foot of the first batch, between
    that write and the read before the second: in each case the run has ended. -/
theorem cancel_honoured_midway : CancelledMidway 11 ∧ CancelledMidway 40 ∧ CancelledMidway 42 := by
  have h : ∀ k ∈ [11, 40, 42], Honoured (conf noJobs (sched (cancelledAfter k) (.env (.tick 0))) 56) := by
    intro k hk
    have hlen : (cancelledAfter k).length = 56 :=
      (by decide : ∀ k ∈ [11, 40, 42], (cancelledAfter k).length = 56) k hk
    have hpass : passes (checked fun w b => decide (CancelOk b.pid w b.op b.ans)) (start noJobs)
        (cancelledAfter k) = true :=
      (by decide +kernel : ∀ k ∈ [11, 40, 42],
        passes (checked fun w b => decide (CancelOk b.pid w b.op b.ans)) (start noJobs) (cancelledAfter k) = true) k hk
    exact cancel_honoured ⟨rfl, rfl, rfl⟩ _ 56 fun m hm e he b hb =>
      of_decide_eq_true (checked_body (passes_conf hpass (hlen ▸ hm)) he hb)
  exact ⟨⟨_, rfl, rfl, h 11 (by decide)⟩, ⟨_, rfl, rfl, h 40 (by decide)⟩, ⟨_, rfl, rfl, h 42 (by decide)⟩⟩

end Connect.Worker
