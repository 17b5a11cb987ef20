/-
  Connect.Await.Lift — coroutines of one signature inside a sum of two, and the history.

  `wp_lift` carries what was proved of a coroutine under its own law to the law of the
  bigger system, along a projection `π` of the worlds. An event of the history happened at
  a step of the run (`hist_event`), after its process was started (`event_started`).
-/

import Connect.Await.Rely

namespace Connect.Await

variable {S T : Sig} {ε α β : Type}

namespace Prog

@[simp] theorem lift_bind (p : Prog T ε α) (f : α → Prog T ε β) :
    ((p.bind f).lift : Prog (S.sum T) ε β) = p.lift.bind fun a => (f a).lift := by
  induction p with
  | ret a => rfl
  | raise e => rfl
  | op o k ih => exact congrArg (@Prog.op (S.sum T) ε β (Sum.inr o)) (funext ih)

theorem lift_await (o : T.Op) : ((await o : Prog T ε (T.Ret o)).lift : Prog (S.sum T) ε _) =
    @await (S.sum T) ε (Sum.inr o) := by
  refine congrArg (@Prog.op (S.sum T) ε _ (Sum.inr o)) (funext fun r => ?_)
  cases r <;> rfl

end Prog

/-- The events of the right part. -/
def rightEvent : Event (S.sum T) ε → Option (Event T ε)
  | ⟨pid, .inr o, r⟩ => some ⟨pid, o, r⟩
  | ⟨_, .inl _, _⟩ => none

section Laws

variable {W W' : Type} {Γ : Law W (S.sum T) ε} {Γ' : Law W' T ε}

theorem wp_lift (π : W → W') (hrely : ∀ a b, Γ.rely a b → Γ'.rely (π a) (π b)) (hinv : ∀ a, Γ.inv a → Γ'.inv (π a))
    (hact : ∀ a o r b, Γ.act a (Sum.inr o) r b → Γ'.act (π a) o r (π b))
    (hguar : ∀ a o r b, Γ.act a (Sum.inr o) r b → Γ'.guar (π a) (π b) → Γ.guar a b) {p : Prog T ε α}
    {Q : Except ε α → W' → Prop} {w : W} (hp : wp Γ' p Q (π w)) : wp Γ p.lift (fun x w => Q x (π w)) w := by
  induction p generalizing w with
  | ret a => exact hp
  | raise e => exact hp
  | op o k ih =>
    intro w₁ hr hi r w₂ ha
    obtain ⟨hg, hk⟩ := hp (π w₁) (hrely _ _ hr) (hinv _ hi) r (π w₂) (hact _ _ _ _ ha)
    exact ⟨hguar _ _ _ _ ha hg, ih r hk⟩

end Laws

/-! ## The history of a run -/

variable {M : System S ε α} {s : M.State} {f : Sched M}

theorem hist_event {n : Nat} {e : Event S ε} (he : e ∈ (conf s f n).w.hist) :
    ∃ k < n, event (conf s f k) (f k) = some e := by
  induction n with
  | zero => cases he
  | succ n ih =>
    change e ∈ (step (conf s f n) (f n)).w.hist at he
    rw [step_hist] at he
    rcases List.mem_append.mp he with he | he
    · exact ⟨n, Nat.lt_succ_self n, Option.mem_toList.mp he⟩
    · obtain ⟨k, hk, hek⟩ := ih he
      exact ⟨k, Nat.lt_succ_of_lt hk, hek⟩

/-- A process performs nothing before it is started. -/
theorem event_started (hs : M.init s) {n m : Nat} (hn : (conf s f n).task pid = none) {e : Event S ε}
    (he : event (conf s f m) (f m) = some e) (hpid : e.pid = pid) : n ≤ m := by
  refine Nat.le_of_not_lt fun hlt => ?_
  have hr : Reach any (conf s f m) := conf_reach hs fun _ _ _ _ => trivial
  obtain ⟨k, _, hp, _, _⟩ := event_some he
  obtain ⟨t, ht, _⟩ := procs_form (fun _ _ _ => True) (fun _ _ => trivial) (fun _ _ _ _ _ _ => trivial) hr _ _ hp
  rw [hpid] at ht
  rw [task_stays hs (Nat.le_of_lt hlt) ht] at hn
  cases hn

end Connect.Await
