/-
  Connect.Await.Serial — runs in which the tasks are done one at a time.

  At a `Lone` operation every other task that was started has returned: none is under way,
  raised or crashed. `Serial` is what a system must show of such runs: what holds while
  nothing is under way (`inv`), what the outside may change (`rely`), and that the code of
  every task, from a world with `inv` and disturbed by the outside only, keeps its promise
  (`guar`) and returns to `inv`. Between its operations `inv` need not hold.

  - `Serial.promise`: at every operation of a run that is done one at a time the promise
    is kept.
  - `lone_of_starts`: tasks that are started when all others have returned are done one
    at a time.
-/

import Connect.Await.Rely

namespace Connect.Await

variable {S : Sig} {ε α : Type} {M : System S ε α}

def Returned (c : Config M) (pid : Nat) : Prop := ∃ a, c.procs pid = some (.ret a)

def Lone (c : Config M) (e : Event S ε) : Prop := ∀ q, q ≠ e.pid → c.task q ≠ none → Returned c q

structure Serial (M : System S ε α) where
  inv : World M → Prop
  rely : World M → World M → Prop
  guar : World M → World M → Prop
  refl : ∀ w, rely w w
  trans : ∀ a b c, rely a b → rely b c → rely a c
  init : ∀ s, M.init s → inv ⟨s, []⟩
  outside : ∀ w e s, M.env w.st e = some s → rely w ⟨s, w.hist⟩
  stable : ∀ w w', rely w w' → inv w → inv w'
  code : ∀ pid t w, inv w →
    wp (M.law (fun _ => True) (fun _ => rely) (fun _ => guar) (fun _ _ _ _ => True) pid) (M.code pid t)
      (fun x w => ∀ a, x = .ok a → inv w) w

namespace Serial

variable (L : Serial M)

abbrev law (pid : Nat) : Law (World M) S ε :=
  M.law (fun _ => True) (fun _ => L.rely) (fun _ => L.guar) (fun _ _ _ _ => True) pid

/-- The others have returned. -/
def Free (c : Config M) (pid : Nat) : Prop := ∀ q, q ≠ pid → c.task q ≠ none → Returned c q

structure Keeps (c : Config M) : Prop where
  idle : (∀ q, c.task q ≠ none → Returned c q) → L.inv c.w
  busy : ∀ pid p, c.procs pid = some p → Free c pid → wp (L.law pid) p (fun x w => ∀ a, x = .ok a → L.inv w) c.w

theorem stays {pid : Nat} {p : Prog S ε α} {w w' : World M} (hr : L.rely w w')
    (hp : wp (L.law pid) p (fun x w => ∀ a, x = .ok a → L.inv w) w) :
    wp (L.law pid) p (fun x w => ∀ a, x = .ok a → L.inv w) w' :=
  wp_stable L.trans (fun _ _ _ hr hQ a ha => L.stable _ _ hr (hQ a ha)) hr hp

theorem performs {c : Config M} (hc : L.Keeps c) {pid : Nat} {o : S.Op} {k : Except ε (S.Ret o) → Prog S ε α}
    {r : Except ε (S.Ret o)} {s : M.State} (hp : c.procs pid = some (.op o k)) (hx : M.exec pid c.w.st o r = some s)
    (hfree : Free c pid) :
    L.guar c.w (c.w.after pid o r s) ∧
      wp (L.law pid) (k r) (fun x w => ∀ a, x = .ok a → L.inv w) (c.w.after pid o r s) :=
  hc.busy pid _ hp hfree c.w (L.refl _) trivial r _ ⟨trivial, s, hx, rfl⟩

theorem keeps_step {c : Config M} (hf : Fresh c)
    (halive : ∀ pid p, c.procs pid = some p → c.task pid ≠ none) (hc : L.Keeps c)
    (ch : Choice M) (hg : ∀ e, event c ch = some e → Lone c e) : L.Keeps (step c ch) := by
  have hm := step_moved c ch
  revert hm
  generalize step c ch = c'
  intro hm
  cases hm with
  | idle => exact hc
  | @ran pid o k r s hp hx he =>
    have hfree : Free c pid := hg _ he
    have hk := (L.performs hc hp hx hfree).2
    -- once it has returned, nothing is under way
    have hend : Returned { c with w := c.w.after pid o r s, procs := upd c.procs pid (some (k r)) } pid →
        L.inv (c.w.after pid o r s) := by
      rintro ⟨a, ha⟩
      have ha : upd c.procs pid (some (k r)) pid = some (.ret a) := ha
      rw [upd_same] at ha
      rw [Option.some.inj ha] at hk
      exact hk a rfl
    refine ⟨fun hall => hend (hall pid (halive pid _ hp)), fun q p hq hfree' => ?_⟩
    by_cases e : q = pid
    · subst e
      simp only [upd_same, Option.some.injEq] at hq
      subst hq
      exact hk
    · simp only [upd_ne _ _ e] at hq
      obtain ⟨a, ha⟩ := hfree q e (halive q p hq)
      cases hq.symm.trans ha
      exact fun _ _ => hend (hfree' pid (Ne.symm e) (halive pid _ hp))
  | crashed pid =>
    have hback : ∀ q, Returned { c with procs := upd c.procs pid none } q → Returned c q := by
      rintro q ⟨a, ha⟩
      by_cases e : q = pid
      · subst e
        simp at ha
      · exact ⟨a, (upd_ne _ _ e).symm.trans ha⟩
    refine ⟨fun hall => hc.idle fun q hq => hback q (hall q hq), fun q p hq hfree => ?_⟩
    by_cases e : q = pid
    · subst e
      simp at hq
    · simp only [upd_ne _ _ e] at hq
      exact hc.busy q p hq fun q' hq' ht => hback q' (hfree q' hq' ht)
  | started t _ hs =>
    have hold : ∀ q, q ≠ c.next → c.task q ≠ none → upd c.task c.next (some t) q ≠ none :=
      fun q hq ht => by rwa [upd_ne _ _ hq]
    have hback : ∀ q, q ≠ c.next → upd c.procs c.next (some (M.code c.next t)) q = c.procs q :=
      fun q hq => upd_ne _ _ hq
    have hnew : ∀ q, c.task q ≠ none → q ≠ c.next := fun q ht hq => ht (hq ▸ hf.task c.next (Nat.le_refl _))
    refine ⟨fun hall => hc.idle fun q ht => ?_, fun q p hq hfree => ?_⟩
    · obtain ⟨a, ha⟩ := hall q (hold q (hnew q ht) ht)
      exact ⟨a, (hback q (hnew q ht)).symm.trans ha⟩
    by_cases e : q = c.next
    · subst e
      simp only [upd_same, Option.some.injEq] at hq
      subst hq
      refine L.code _ t _ (hc.idle fun q ht => ?_)
      obtain ⟨a, ha⟩ := hfree q (hnew q ht) (hold q (hnew q ht) ht)
      exact ⟨a, (hback q (hnew q ht)).symm.trans ha⟩
    · refine hc.busy q p ((hback q e).symm.trans hq) fun q' hq' ht => ?_
      obtain ⟨a, ha⟩ := hfree q' hq' (hold q' (hnew q' ht) ht)
      exact ⟨a, (hback q' (hnew q' ht)).symm.trans ha⟩
  | moved _ hx =>
    have hr := L.outside _ _ _ hx
    exact ⟨fun hall => L.stable _ _ hr (hc.idle hall), fun q p hq hfree => L.stays hr (hc.busy q p hq hfree)⟩

theorem keeps {c : Config M} (h : Reach Lone c) : L.Keeps c := by
  induction h with
  | init s hs => exact ⟨fun _ => L.init s hs, fun pid p hp => by cases hp⟩
  | step ch hr he ih =>
    refine L.keeps_step (fresh hr) (fun pid p hp hnone => ?_) ih ch he
    obtain ⟨t, ht, _⟩ := procs_form (fun _ _ _ => True) (fun _ _ => trivial) (fun _ _ _ _ _ _ => trivial) hr pid p hp
    rw [hnone] at ht
    cases ht

/-- Every operation of such a run keeps its promise. -/
theorem promise {s : M.State} (hs : M.init s) {f : Sched M} {n : Nat}
    (hlone : ∀ k ≤ n, ∀ e, event (conf s f k) (f k) = some e → Lone (conf s f k) e) {e : Event S ε}
    (he : event (conf s f n) (f n) = some e) : L.guar (conf s f n).w (conf s f (n + 1)).w := by
  have hreach : Reach Lone (conf s f n) := conf_reach hs fun k hk => hlone k (Nat.le_of_lt hk)
  obtain ⟨k, s', hp, hx, hstep⟩ := event_some he
  have hg := (L.performs (L.keeps hreach) hp hx (hlone n (Nat.le_refl n) e he)).1
  show L.guar (conf s f n).w (step (conf s f n) (f n)).w
  rw [hstep]
  exact hg

end Serial

/-- A task that is started when all others have returned is alone. -/
theorem lone_of_starts {s : M.State} (hs : M.init s) {f : Sched M} {n : Nat}
    (hcrash : ∀ k < n, ∀ pid, f k ≠ .crash pid)
    (hstart : ∀ k < n, ∀ t, f k = .start t → ∀ q, (conf s f k).task q ≠ none → Returned (conf s f k) q) :
    ∀ k ≤ n, ∀ e, event (conf s f k) (f k) = some e → Lone (conf s f k) e := by
  have hlast : ∀ k ≤ n, ∃ p, ∀ q, q ≠ p → (conf s f k).task q ≠ none → Returned (conf s f k) q := by
    intro k
    induction k with
    | zero => exact fun _ => ⟨0, fun _ _ ht => absurd rfl ht⟩
    | succ k ih =>
      intro hk
      obtain ⟨p, hp⟩ := ih (by omega)
      have hcrash := hcrash k (by omega)
      have hstart := hstart k (by omega)
      show ∃ p, ∀ q, q ≠ p → (step (conf s f k) (f k)).task q ≠ none → Returned (step (conf s f k) (f k)) q
      generalize f k = ch at hcrash hstart
      cases ch with
      | run pid ans =>
        cases he : event (conf s f k) (.run pid ans) with
        | none => exact ⟨p, by rw [run_idle he]; exact hp⟩
        | some e =>
          obtain ⟨k', s', hop, _, hstep⟩ := event_some he
          refine ⟨p, fun q hq ht => ?_⟩
          rw [hstep] at ht ⊢
          obtain ⟨a, ha⟩ := hp q hq ht
          have hne : q ≠ e.pid := by
            rintro rfl
            cases ha.symm.trans hop
          exact ⟨a, (upd_ne _ _ hne).trans ha⟩
      | crash pid => exact absurd rfl (hcrash pid)
      | start t =>
        by_cases hst : M.starts (conf s f k).w.st t = true
        · refine ⟨(conf s f k).next, fun q hq ht => ?_⟩
          rw [start_step hst] at ht ⊢
          obtain ⟨a, ha⟩ := hstart t rfl q (by rwa [← upd_ne (conf s f k).task (some t) hq])
          exact ⟨a, (upd_ne _ _ hq).trans ha⟩
        · exact ⟨p, by rw [start_idle hst]; exact hp⟩
      | env e =>
        refine ⟨p, ?_⟩
        cases hx : M.env (conf s f k).w.st e with
        | none => rw [env_idle hx]; exact hp
        | some s' => rw [env_step hx]; exact hp
  intro k hk e he q hq ht
  obtain ⟨p, hp⟩ := hlast k hk
  obtain ⟨_, _, hop, _, _⟩ := event_some he
  -- what performs an operation has not returned, so it is the one that may not have
  have hep : e.pid = p := by
    refine Classical.byContradiction fun hne => ?_
    have hr : Reach any (conf s f k) := conf_reach hs fun _ _ _ _ => trivial
    obtain ⟨t, htask, _⟩ :=
      procs_form (fun _ _ _ => True) (fun _ _ => trivial) (fun _ _ _ _ _ _ => trivial) hr _ _ hop
    obtain ⟨a, ha⟩ := hp e.pid hne (by rw [htask]; exact nofun)
    cases ha.symm.trans hop
  exact hp q (hep ▸ hq) ht

end Connect.Await
