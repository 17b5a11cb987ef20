/-
  Connect.Worker.Guard — what holds of tasks holds of them behind `@idempotent`.

  The wrapper's own calls touch processed_jobs only, so seen from the tasks' state and
  operations (`inner`) they are idle steps. `guardLaw` lifts a law of the tasks to the
  guarded system; a delivery that returns a value has what the body promised of it.
-/

import Connect.Worker.AtMostOnce

namespace Connect.Worker

open Await

variable {B : Sig} {R : Type}

def bodyEvent : Event (TaskSig B) Exc → Option (Event B Exc)
  | ⟨pid, .inr o, r⟩ => some ⟨pid, o, r⟩
  | ⟨_, .inl _, _⟩ => none

def bodyHist (h : Hist B) : List (Event B Exc) := h.filterMap bodyEvent

variable {H : System B Exc R} {wrapped : H.Task → Option Ctx} {table : Processed → Prop}

/-- The world as the tasks see it. -/
def inner (w : GWorld H wrapped table) : World H := ⟨w.st.2, bodyHist w.hist⟩

theorem bodyEvent_pid {e : Event (TaskSig B) Exc} {b : Event B Exc} (h : bodyEvent e = some b) : b.pid = e.pid := by
  obtain ⟨pid, o | o, r⟩ := e
  · cases h
  · cases h; rfl

/-- An operation of the wrapper is idle, one of the body is the body's. -/
theorem exec_inner {pid : Nat} {w : GWorld H wrapped table} {o : (TaskSig B).Op} {r : Except Exc ((TaskSig B).Ret o)}
    {s : (guarded H wrapped table).State} (h : (guarded H wrapped table).exec pid w.st o r = some s) :
    match bodyEvent ⟨pid, o, r⟩ with
    | none => inner (w.after pid o r s) = inner w
    | some b =>
      ∃ s', H.exec b.pid w.st.2 b.op b.ans = some s' ∧
      inner (w.after pid o r s) = (inner w).after b.pid b.op b.ans s' := by
  rcases o with o | o
  · obtain ⟨t', _, rfl⟩ := Option.map_eq_some_iff.mp h
    rfl
  · obtain ⟨s', hs, rfl⟩ := Option.map_eq_some_iff.mp h
    exact ⟨s', hs, rfl⟩

variable {good : Config H → Event B Exc → Prop} (L : Sound H good)

/-- What a delivery leaves: the body's promise, when it returned its value. -/
def guardPost (pid : Nat) (t : H.Task) : Except Exc (Option R) → GWorld H wrapped table → Prop
  | .ok (some a), w => L.post pid t (.ok a) (inner w)
  | _, _ => True

abbrev guardSystemLaw (pid : Nat) (t : H.Task) : Law (GWorld H wrapped table) (TaskSig B) Exc :=
  (guarded H wrapped table).law (fun w => L.inv (inner w)) (fun pid a b => L.rely pid (inner a) (inner b))
    (fun pid a b => L.guar pid t (inner a) (inner b) ∨ inner b = inner a)
    (fun _ w o r => ∀ b, bodyEvent ⟨pid, o, r⟩ = some b → L.allow b.pid (inner w) b.op b.ans) pid

theorem wp_inner {pid : Nat} {t : H.Task} {p : Prog B Exc R} {Q : Except Exc R → World H → Prop}
    {w : GWorld H wrapped table} (h : wp (L.law pid t) p Q (inner w)) :
    wp (guardSystemLaw L pid t : Law (GWorld H wrapped table) _ _) p.lift (fun x w => Q x (inner w)) w := by
  induction p generalizing w with
  | ret a => exact h
  | raise e => exact h
  | op o k ih =>
    intro w₁ hr hi r _ h
    obtain ⟨hal, s, hx, rfl⟩ := h
    obtain ⟨s', hs', heq⟩ := exec_inner (o := Sum.inr o) hx
    obtain ⟨hg, hk⟩ := h (inner w₁) hr hi r _ ⟨hal _ rfl, s', hs', rfl⟩
    exact ⟨Or.inl (heq ▸ hg), ih r (heq ▸ hk)⟩

/-- A call of the wrapper, seen from the tasks. -/
theorem wp_idle {pid : Nat} {t : H.Task} {o : ProcessedOp}
    {Q : Except Exc o.Ret → GWorld H wrapped table → Prop} {w : GWorld H wrapped table}
    (h : ∀ r (w' : GWorld H wrapped table), L.rely pid (inner w) (inner w') → Q r w') :
    wp (guardSystemLaw L pid t) (@Prog.left processedSig B Exc o) Q w := by
  apply wp_await
  intro w₁ hr _ r _ h
  obtain ⟨_, s, hx, rfl⟩ := h
  have heq : inner (w₁.after pid _ r s) = inner w₁ := exec_inner (o := Sum.inl o) hx
  exact ⟨Or.inr heq, h r _ (by rw [heq]; exact hr)⟩

theorem wp_guard {pid : Nat} {t : H.Task} {w : GWorld H wrapped table}
    (h : wp (L.law pid t) (H.code pid t) (L.post pid t) (inner w)) :
    wp (guardSystemLaw L pid t) ((guarded H wrapped table).code pid t) (guardPost L pid t) w := by
  have hsome : ∀ w' : GWorld H wrapped table, L.rely pid (inner w) (inner w') →
      wp (guardSystemLaw L pid t) (some <$> (H.code pid t).lift) (guardPost L pid t) w' := by
    intro w' hr
    rw [Prog.map_def, wp_bind]
    refine wp_mono ?_ (wp_inner L (wp_stable (L.trans pid) (fun x => L.stable pid t x) hr h))
    intro x w₂ hx
    cases x with
    | ok a => exact hx
    | error e => trivial
  simp only [guarded]
  cases wrapped t with
  | none => exact hsome w (L.refl _ _)
  | some ctx =>
    simp only [idempotent]
    cases truthy ctx.jobId with
    | none => exact hsome w (L.refl _ _)
    | some j =>
      refine wp_bind.mpr (wp_idle L fun r w₁ hr₁ => ?_)
      rcases r with e | b
      · trivial
      cases b with
      | false => trivial
      | true =>
        refine wp_bind.mpr (wp_idle L fun r w₂ hr₂ => ?_)
        rcases r with e | _
        · trivial
        refine wp_catching.mpr (wp_mono ?_ (hsome w₂ (L.trans _ _ _ _ hr₁ hr₂)))
        intro x w₃ hx
        cases x with
        | ok a => exact hx
        | error e =>
          by_cases he : e.isException = true
          · simp only [he, if_true]
            refine wp_bind.mpr (wp_idle L fun r w₄ _ => ?_)
            cases r <;> trivial
          · simp only [he]; trivial

/-- A law of the tasks, behind `@idempotent`. -/
def guardLaw (good' : Config (guarded H wrapped table) → Event (TaskSig B) Exc → Prop)
    (hgood : ∀ c e b, good' c e → bodyEvent e = some b → L.allow b.pid (inner c.w) b.op b.ans) :
    Sound (guarded H wrapped table) good' where
  inv w := L.inv (inner w)
  rely pid a b := L.rely pid (inner a) (inner b)
  guar pid t a b := L.guar pid t (inner a) (inner b) ∨ inner b = inner a
  allow pid w o r := ∀ b, bodyEvent ⟨pid, o, r⟩ = some b → L.allow b.pid (inner w) b.op b.ans
  post := guardPost L
  refl pid w := L.refl pid _
  trans pid a b c := L.trans pid _ _ _
  init s hs := L.init s.2 hs.2
  keep pid t w w' hi hg := by
    rcases hg with hg | heq
    · exact L.keep pid t _ _ hi hg
    · rw [heq]; exact hi
  others pid t q w w' hne hi hg := by
    rcases hg with hg | heq
    · exact L.others pid t q _ _ hne hi hg
    · rw [heq]; exact L.refl q _
  outside w e s hi hx := by
    obtain ⟨s', hs', rfl⟩ := Option.map_eq_some_iff.mp hx
    exact L.outside (inner w) e s' hi hs'
  allowed c e hg b hb := hgood c e b hg hb
  stable pid t x w w' hr hp := by
    rcases x with e | _ | a
    · trivial
    · trivial
    · exact L.stable pid t _ _ _ hr hp
  code pid t w hi hs hf := by
    refine wp_guard L (L.code pid t (inner w) hi hs ?_)
    intro b hb
    obtain ⟨e, he, heb⟩ := List.mem_filterMap.mp hb
    rw [bodyEvent_pid heb]
    exact hf e he

/-- An operation of the wrapper, or one of the body that satisfies `P`. -/
def BodyOp (P : B.Op → Prop) : (TaskSig B).Op → Prop
  | .inl _ => True
  | .inr o => P o

theorem uses_left {P : B.Op → Prop} (o : ProcessedOp) : (@Prog.left processedSig B Exc o).Uses (BodyOp P) :=
  ⟨trivial, fun r => by cases r <;> trivial⟩

theorem uses_guarded {P : B.Op → Prop} {pid : Nat} {t : H.Task} (h : (H.code pid t).Uses P) :
    ((guarded H wrapped table).code pid t).Uses (BodyOp P) := by
  have hbody : (some <$> (H.code pid t).lift : Prog (TaskSig B) Exc (Option R)).Uses (BodyOp P) :=
    .bind (.lift h) fun _ => trivial
  simp only [guarded]
  cases wrapped t with
  | none => exact hbody
  | some ctx =>
    simp only [idempotent]
    cases truthy ctx.jobId with
    | none => exact hbody
    | some j =>
      refine .bind (uses_left _) fun inserted => ?_
      cases inserted with
      | false => trivial
      | true =>
        refine .bind (uses_left _) fun _ => .catching hbody fun e => ?_
        split
        · exact .bind (uses_left _) fun _ => trivial
        · trivial

/-- A step, as the tasks see it: an operation of a body, or idle but for the outside. -/
theorem step_inner (c : Config (guarded H wrapped table)) (ch : Choice (guarded H wrapped table)) :
    (∃ e b, event c ch = some e ∧ bodyEvent e = some b ∧ H.exec b.pid c.w.st.2 b.op b.ans = some (step c ch).w.st.2 ∧
      inner (step c ch).w = (inner c.w).after b.pid b.op b.ans (step c ch).w.st.2) ∨
    ((∀ e, event c ch = some e → bodyEvent e = none) ∧ bodyHist (step c ch).w.hist = bodyHist c.w.hist ∧
      ((step c ch).w.st.2 = c.w.st.2 ∨ ∃ e, H.env c.w.st.2 e = some (step c ch).w.st.2)) := by
  have hnone : event c ch = none → ∀ e, event c ch = some e → bodyEvent e = none := by
    intro he e h
    rw [he] at h
    cases h
  have hm := step_moved c ch
  revert hm
  generalize step c ch = c'
  intro hm
  cases hm with
  | idle he => exact Or.inr ⟨hnone he, rfl, Or.inl rfl⟩
  | @ran pid o k r s hp hx he =>
    have hex := exec_inner hx
    rcases o with o | o
    · refine Or.inr ⟨fun e h => ?_, congrArg World.hist hex, Or.inl (congrArg World.st hex)⟩
      rw [he] at h
      cases h
      rfl
    · obtain ⟨s', hs', heq⟩ := hex
      have hst : s.2 = s' := congrArg World.st heq
      subst hst
      exact Or.inl ⟨_, _, he, rfl, hs', heq⟩
  | crashed pid he => exact Or.inr ⟨hnone he, rfl, Or.inl rfl⟩
  | started t he => exact Or.inr ⟨hnone he, rfl, Or.inl rfl⟩
  | @moved e s he hx =>
    obtain ⟨s', hs', rfl⟩ := Option.map_eq_some_iff.mp hx
    exact Or.inr ⟨hnone he, rfl, Or.inr ⟨e, hs'⟩⟩

/-- The operation of a task in this choice, if it performs one, satisfies `p`. -/
def checked (p : World H → Event B Exc → Bool) (c : Config (guarded H wrapped table))
    (ch : Choice (guarded H wrapped table)) : Bool :=
  ((event c ch).bind bodyEvent).all (p (inner c.w))

theorem checked_body {p : World H → Event B Exc → Bool} {c : Config (guarded H wrapped table)}
    {ch : Choice (guarded H wrapped table)} (h : checked p c ch = true) {e : Event (TaskSig B) Exc} {b : Event B Exc}
    (he : event c ch = some e) (hb : bodyEvent e = some b) : p (inner c.w) b = true := by
  simpa [checked, he, hb] using h

/-! ## Where the marker is inserted -/

/-- Not an insert of a marker. -/
def NoMark : (TaskSig B).Op → Prop
  | .inl (.markProcessed _ _ _) => False
  | _ => True

theorem body_noMark (p : Prog B Exc R) : (some <$> p.lift : Prog (TaskSig B) Exc (Option R)).Uses NoMark :=
  .bind (.lift (p.uses_all.mono fun _ _ => trivial)) fun _ => trivial

/-- What runs once the marker is in. -/
def onceMarked (arqJobId : String) (p : Prog B Exc R) : Prog (TaskSig B) Exc (Option R) :=
  (enter arqJobId).bind fun _ => (some <$> p.lift : Prog (TaskSig B) Exc (Option R)).catching fun e =>
    if e.isException then do
      markFailed arqJobId
      .raise e
    else .raise e

theorem onceMarked_noMark (arqJobId : String) (p : Prog B Exc R) : (onceMarked arqJobId p).Uses NoMark := by
  refine .bind ⟨trivial, fun r => by cases r <;> trivial⟩ fun _ => .catching (body_noMark p) fun e => ?_
  split
  · exact .bind ⟨trivial, fun r => by cases r <;> trivial⟩ fun _ => trivial
  · trivial

/-- A task runs its body, or inserts the marker of its message first. -/
theorem code_cases (pid : Nat) (t : H.Task) :
    (guarded H wrapped table).code pid t = some <$> (H.code pid t).lift ∨
    ∃ ctx arqJobId, wrapped t = some ctx ∧ truthy ctx.jobId = some arqJobId ∧
      (guarded H wrapped table).code pid t =
        (markProcessed arqJobId (orElse ctx.hostname ctx.podName) none).bind fun newlyProcessed =>
          if newlyProcessed then onceMarked arqJobId (H.code pid t) else .ret none := by
  simp only [guarded]
  cases wrapped t with
  | none => exact Or.inl rfl
  | some ctx =>
    simp only [idempotent]
    cases hj : truthy ctx.jobId with
    | none => exact Or.inl rfl
    | some arqJobId => exact Or.inr ⟨ctx, arqJobId, rfl, hj, rfl⟩

/-- After its first call no task inserts a marker. -/
theorem code_marks {pid : Nat} {t : H.Task} {o : (TaskSig B).Op}
    {k : Except Exc ((TaskSig B).Ret o) → Prog (TaskSig B) Exc (Option R)}
    (h : (guarded H wrapped table).code pid t = .op o k) : ∀ r, (k r).Uses NoMark := by
  rcases code_cases pid t with he | ⟨ctx, arqJobId, _, _, he⟩
  · have hu := body_noMark (H.code pid t)
    rw [← he, h] at hu
    exact hu.2
  · rw [he] at h
    refine Prog.uses_tail h fun newlyProcessed => ?_
    split
    · exact onceMarked_noMark arqJobId (H.code pid t)
    · trivial

/-- A process that inserts a marker inserts its own, and then starts its body. -/
theorem at_start {good : Config (guarded H wrapped table) → Event (TaskSig B) Exc → Prop}
    {c : Config (guarded H wrapped table)} (h : Reach good c) {pid : Nat} {arqJobId : String} {w st : Option String}
    {k : Except Exc Bool → Prog (TaskSig B) Exc (Option R)}
    (hp : c.procs pid = some (@Prog.op (TaskSig B) _ _ (Sum.inl (ProcessedOp.markProcessed arqJobId w st)) k)) :
    ∃ t ctx, c.task pid = some t ∧ wrapped t = some ctx ∧ truthy ctx.jobId = some arqJobId ∧
      k (.ok true) = onceMarked arqJobId (H.code pid t) := by
  obtain ⟨t, ht, hF⟩ := procs_form (fun pid t p => (guarded H wrapped table).code pid t = p ∨ p.Uses NoMark)
    (fun _ _ => Or.inl rfl) (fun pid t o k r h => Or.inr (h.elim (fun h => code_marks h r) fun h => h.2 r)) h pid _ hp
  rcases hF with hF | hF
  · rcases @code_cases B R H wrapped table pid t with he | ⟨ctx, j, hw, hj, he⟩
    · have hu := body_noMark (H.code pid t)
      rw [← he, hF] at hu
      exact hu.1.elim
    · rw [he] at hF
      cases hF
      exact ⟨t, ctx, ht, hw, hj, rfl⟩
  · exact hF.1.elim

end Connect.Worker
