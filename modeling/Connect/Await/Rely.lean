/-
  Connect.Await.Rely — rely/guarantee for coroutines.

  A `Law` is what one process lives by: a global invariant, what the others may do
  between two of its operations (`rely`), what each of its own operations promises
  (`guar`, by its task), and what its operations do (`act`). `wp Γ p Q w` says that from
  the world `w` every operation `p` ever performs keeps its promise, whatever the others
  do in between, and that `p` ends only in outcomes of `Q`. It is a recursion over the
  tree, so the rules for `bind`, `catching`, `finally_` and `attempt` are equivalences.

  `Sound` gathers what a system must show of its laws; then every process of every
  reachable configuration satisfies its `wp` (`Sound.keeps`), and every operation of
  every run keeps its promise (`Sound.promise`).
-/

import Connect.Await.Pool

namespace Connect.Await

structure Law (W : Type) (T : Sig) (ε : Type) where
  inv : W → Prop
  rely : W → W → Prop
  guar : W → W → Prop
  act : W → (o : T.Op) → Except ε (T.Ret o) → W → Prop

variable {W : Type} {S T : Sig} {ε α β : Type}

def wp (Γ : Law W T ε) : Prog T ε α → (Except ε α → W → Prop) → W → Prop
  | .ret a, Q, w => Q (.ok a) w
  | .raise e, Q, w => Q (.error e) w
  | .op o k, Q, w => ∀ w₁, Γ.rely w w₁ → Γ.inv w₁ → ∀ r w₂, Γ.act w₁ o r w₂ → Γ.guar w₁ w₂ ∧ wp Γ (k r) Q w₂

section Rules

variable {Γ : Law W T ε} {Q : Except ε α → W → Prop} {w : W}

@[simp] theorem wp_ret (a : α) : wp Γ (.ret a) Q w ↔ Q (.ok a) w := Iff.rfl
@[simp] theorem wp_raise (e : ε) : wp Γ (.raise e : Prog T ε α) Q w ↔ Q (.error e) w := Iff.rfl

theorem wp_await {o : T.Op} {Q : Except ε (T.Ret o) → W → Prop}
    (h : ∀ w₁, Γ.rely w w₁ → Γ.inv w₁ → ∀ r w₂, Γ.act w₁ o r w₂ → Γ.guar w₁ w₂ ∧ Q r w₂) :
    wp Γ (.await o) Q w := by
  intro w₁ hr hi r w₂ ha
  obtain ⟨hg, hq⟩ := h w₁ hr hi r w₂ ha
  cases r with
  | ok a => exact ⟨hg, hq⟩
  | error e => exact ⟨hg, hq⟩

/-- What a coroutine's continuation must satisfy after `p`. -/
def andThen (Γ : Law W T ε) (f : α → Prog T ε β) (Q : Except ε β → W → Prop) : Except ε α → W → Prop
  | .ok a, w => wp Γ (f a) Q w
  | .error e, w => Q (.error e) w

@[simp] theorem andThen_ok (f : α → Prog T ε β) (Q : Except ε β → W → Prop) (a : α) :
    andThen Γ f Q (.ok a) w = wp Γ (f a) Q w := rfl
@[simp] theorem andThen_error (f : α → Prog T ε β) (Q : Except ε β → W → Prop) (e : ε) :
    andThen Γ f Q (.error e) w = Q (.error e) w := rfl

theorem wp_bind {p : Prog T ε α} {f : α → Prog T ε β} {Q : Except ε β → W → Prop} :
    wp Γ (p.bind f) Q w ↔ wp Γ p (andThen Γ f Q) w := by
  induction p generalizing w with
  | ret a => exact Iff.rfl
  | raise e => exact Iff.rfl
  | op o k ih => simp only [Prog.bind, wp, ih]

theorem wp_catching {p : Prog T ε α} {h : ε → Prog T ε α} :
    wp Γ (p.catching h) Q w ↔ wp Γ p (fun
      | .ok a, w => Q (.ok a) w
      | .error e, w => wp Γ (h e) Q w) w := by
  induction p generalizing w with
  | ret a => exact Iff.rfl
  | raise e => exact Iff.rfl
  | op o k ih => simp only [Prog.catching, wp, ih]

theorem wp_finally {p : Prog T ε α} {c : Prog T ε Unit} :
    wp Γ (p.finally_ c) Q w ↔ wp Γ p (fun
      | .ok a, w => wp Γ c (andThen Γ (fun _ => .ret a) Q) w
      | .error e, w => wp Γ c (andThen Γ (fun _ => .raise e) Q) w) w := by
  induction p generalizing w with
  | ret a => exact wp_bind
  | raise e => exact wp_bind
  | op o k ih => simp only [Prog.finally_, wp, ih]

theorem wp_attempt {p : Prog T ε α} {Q : Except ε (Except ε α) → W → Prop} :
    wp Γ p.attempt Q w ↔ wp Γ p (fun x => Q (.ok x)) w := by
  induction p generalizing w with
  | ret a => exact Iff.rfl
  | raise e => exact Iff.rfl
  | op o k ih => simp only [Prog.attempt, wp, ih]

theorem wp_mono {Q' : Except ε α → W → Prop} (h : ∀ x w, Q x w → Q' x w) {p : Prog T ε α} (hp : wp Γ p Q w) :
    wp Γ p Q' w := by
  induction p generalizing w with
  | ret a => exact h _ _ hp
  | raise e => exact h _ _ hp
  | op o k ih =>
    intro w₁ hr hi r w₂ ha
    obtain ⟨hg, hk⟩ := hp w₁ hr hi r w₂ ha
    exact ⟨hg, ih r hk⟩

/-- One coroutine, then another. -/
theorem wp_seq {p : Prog T ε α} {f : α → Prog T ε β} {P : W → Prop} {Q : Except ε β → W → Prop}
    (hp : wp Γ p (fun _ => P) w) (he : ∀ e w, P w → Q (.error e) w) (hf : ∀ a w, P w → wp Γ (f a) Q w) :
    wp Γ (p.bind f) Q w := by
  refine wp_bind.mpr (wp_mono (fun x w h => ?_) hp)
  cases x with
  | ok a => exact hf a w h
  | error e => exact he e w h

/-- A coroutine keeps what each of its operations keeps. -/
theorem wp_uses {O : T.Op → Prop} {P : W → Prop} (hr : ∀ a b, Γ.rely a b → P a → P b)
    (ha : ∀ w o r w', O o → P w → Γ.inv w → Γ.act w o r w' → Γ.guar w w' ∧ P w') {p : Prog T ε α} (hp : p.Uses O)
    (h : P w) : wp Γ p (fun _ => P) w := by
  induction p generalizing w with
  | ret a => exact h
  | raise e => exact h
  | op o k ih =>
    intro w₁ hr₁ hi r w₂ ha₂
    obtain ⟨hg, hP⟩ := ha w₁ o r w₂ hp.1 (hr _ _ hr₁ h) hi ha₂
    exact ⟨hg, ih r (hp.2 r) hP⟩

/-- What the rely and the process's own promises keep holds along with everything else. -/
theorem wp_frame {F : W → Prop} (hr : ∀ a b, Γ.rely a b → F a → F b) (hg : ∀ a b, Γ.guar a b → F a → F b)
    {p : Prog T ε α} (hp : wp Γ p Q w) (hF : F w) : wp Γ p (fun x w => Q x w ∧ F w) w := by
  induction p generalizing w with
  | ret a => exact ⟨hp, hF⟩
  | raise e => exact ⟨hp, hF⟩
  | op o k ih =>
    intro w₁ hr₁ hi r w₂ ha
    obtain ⟨hgu, hk⟩ := hp w₁ hr₁ hi r w₂ ha
    exact ⟨hgu, ih r hk (hg _ _ hgu (hr _ _ hr₁ hF))⟩

/-- Between two of its operations a process's `wp` survives what the others do. -/
theorem wp_stable (htrans : ∀ a b c, Γ.rely a b → Γ.rely b c → Γ.rely a c)
    (hQ : ∀ x a b, Γ.rely a b → Q x a → Q x b) {p : Prog T ε α} {w' : W} (hr : Γ.rely w w') (hp : wp Γ p Q w) :
    wp Γ p Q w' := by
  cases p with
  | ret a => exact hQ _ _ _ hr hp
  | raise e => exact hQ _ _ _ hr hp
  | op o k => exact fun w₁ hr' => hp w₁ (htrans _ _ _ hr hr')

end Rules

/-! ## Laws of a system -/

variable {M : System S ε α}

/-- The law of process `pid`: its operations are the system's, as far as `allow` admits them. -/
def System.law (M : System S ε α) (inv : World M → Prop) (rely guar : Nat → World M → World M → Prop)
    (allow : Nat → World M → (o : S.Op) → Except ε (S.Ret o) → Prop) (pid : Nat) : Law (World M) S ε :=
  { inv := inv, rely := rely pid, guar := guar pid,
    act := fun w o r w' => allow pid w o r ∧ ∃ s, M.exec pid w.st o r = some s ∧ w' = w.after pid o r s }

structure Sound (M : System S ε α) (good : Config M → Event S ε → Prop) where
  inv : World M → Prop
  rely : Nat → World M → World M → Prop
  guar : Nat → M.Task → World M → World M → Prop
  allow : Nat → World M → (o : S.Op) → Except ε (S.Ret o) → Prop
  /-- What a finished process leaves, by its task. -/
  post : Nat → M.Task → Except ε α → World M → Prop
  refl : ∀ pid w, rely pid w w
  trans : ∀ pid a b c, rely pid a b → rely pid b c → rely pid a c
  init : ∀ s, M.init s → inv ⟨s, []⟩
  keep : ∀ pid t w w', inv w → guar pid t w w' → inv w'
  others : ∀ pid t q w w', pid ≠ q → inv w → guar pid t w w' → rely q w w'
  outside : ∀ w e s, inv w → M.env w.st e = some s → inv ⟨s, w.hist⟩ ∧ ∀ q, rely q w ⟨s, w.hist⟩
  allowed : ∀ c e, good c e → allow e.pid c.w e.op e.ans
  stable : ∀ pid t x w w', rely pid w w' → post pid t x w → post pid t x w'
  code : ∀ pid t w, inv w → M.starts w.st t = true → (∀ e ∈ w.hist, e.pid ≠ pid) →
    wp (M.law inv rely (fun pid => guar pid t) allow pid) (M.code pid t) (post pid t) w

namespace Sound

variable {good : Config M → Event S ε → Prop} (L : Sound M good)

abbrev law (pid : Nat) (t : M.Task) : Law (World M) S ε := M.law L.inv L.rely (fun pid => L.guar pid t) L.allow pid

/-- Every process is at a point where its `wp` holds. -/
def Keeps (c : Config M) : Prop :=
  L.inv c.w ∧ ∀ pid p, c.procs pid = some p → ∃ t, c.task pid = some t ∧ wp (L.law pid t) p (L.post pid t) c.w

theorem stays {pid : Nat} {t : M.Task} {p : Prog S ε α} {w w' : World M} (hr : L.rely pid w w')
    (hp : wp (L.law pid t) p (L.post pid t) w) : wp (L.law pid t) p (L.post pid t) w' :=
  wp_stable (L.trans pid) (fun x => L.stable pid t x) hr hp

theorem performs {c : Config M} (hc : L.Keeps c) {pid : Nat} {o : S.Op} {k : Except ε (S.Ret o) → Prog S ε α}
    {r : Except ε (S.Ret o)} {s : M.State} (hp : c.procs pid = some (.op o k)) (hx : M.exec pid c.w.st o r = some s)
    (hg : good c ⟨pid, o, r⟩) :
    ∃ t, c.task pid = some t ∧ L.guar pid t c.w (c.w.after pid o r s) ∧
      wp (L.law pid t) (k r) (L.post pid t) (c.w.after pid o r s) := by
  obtain ⟨t, ht, hw⟩ := hc.2 pid _ hp
  obtain ⟨h1, h2⟩ := hw c.w (L.refl pid _) hc.1 r _ ⟨L.allowed c _ hg, s, hx, rfl⟩
  exact ⟨t, ht, h1, h2⟩

theorem keeps_step {c : Config M} (hf : Fresh c) (hc : L.Keeps c) (ch : Choice M)
    (hg : ∀ e, event c ch = some e → good c e) : L.Keeps (step c ch) := by
  have hm := step_moved c ch
  revert hm
  generalize step c ch = c'
  intro hm
  cases hm with
  | idle => exact hc
  | @ran pid o k r s hp hx he =>
    obtain ⟨t, ht, hgu, hk⟩ := L.performs hc hp hx (hg _ he)
    refine ⟨L.keep pid t _ _ hc.1 hgu, fun q p hq => ?_⟩
    by_cases e : q = pid
    · subst e
      simp only [upd_same, Option.some.injEq] at hq
      subst hq
      exact ⟨t, ht, hk⟩
    · simp only [upd_ne _ _ e] at hq
      obtain ⟨t', ht', hw⟩ := hc.2 q p hq
      exact ⟨t', ht', L.stays (L.others pid t q _ _ (Ne.symm e) hc.1 hgu) hw⟩
  | crashed pid =>
    refine ⟨hc.1, fun q p hq => ?_⟩
    by_cases e : q = pid
    · subst e; simp at hq
    · simp only [upd_ne _ _ e] at hq; exact hc.2 q p hq
  | started t _ hs =>
    refine ⟨hc.1, fun q p hq => ?_⟩
    by_cases e : q = c.next
    · subst e
      simp only [upd_same, Option.some.injEq] at hq ⊢
      subst hq
      exact ⟨t, rfl, L.code _ t _ hc.1 hs fun e he => Nat.ne_of_lt (hf.hist e he)⟩
    · simp only [upd_ne _ _ e] at hq ⊢
      exact hc.2 q p hq
  | moved _ hx =>
    obtain ⟨hi, hr⟩ := L.outside _ _ _ hc.1 hx
    refine ⟨hi, fun q p hq => ?_⟩
    obtain ⟨t, ht, hw⟩ := hc.2 q p hq
    exact ⟨t, ht, L.stays (hr q) hw⟩

theorem keeps {c : Config M} (h : Reach good c) : L.Keeps c := by
  induction h with
  | init s hs => exact ⟨L.init s hs, fun pid p hp => by cases hp⟩
  | step ch hr he ih => exact L.keeps_step (fresh hr) ih ch he

/-- Every operation of a run keeps its process's promise. -/
theorem promise {c : Config M} (h : Reach good c) {pid : Nat} {o : S.Op} {k : Except ε (S.Ret o) → Prog S ε α}
    {r : Except ε (S.Ret o)} {s : M.State} (hp : c.procs pid = some (.op o k)) (hx : M.exec pid c.w.st o r = some s)
    (hg : good c ⟨pid, o, r⟩) : ∃ t, c.task pid = some t ∧ L.guar pid t c.w (c.w.after pid o r s) :=
  (L.performs (L.keeps h) hp hx hg).imp fun _ h => ⟨h.1, h.2.1⟩

/-- What every process has before its first operation, keeps under its own and does not
    lose to the others, it has in every run, also after a crash. -/
theorem always (P : Nat → M.Task → World M → Prop)
    (hstart : ∀ pid t w, (∀ e ∈ w.hist, e.pid ≠ pid) → P pid t w)
    (hrely : ∀ pid t a b, L.rely pid a b → P pid t a → P pid t b)
    (hguar : ∀ pid t a b, L.inv a → L.guar pid t a b → P pid t a → P pid t b) {c : Config M} (h : Reach good c) :
    ∀ pid t, c.task pid = some t → P pid t c.w := by
  induction h with
  | init s _ => intro pid t ht; cases ht
  | @step c ch hc hg ih =>
    have hk := L.keeps hc
    have hm := step_moved c ch
    revert hm
    generalize step c ch = c'
    intro hm q t ht
    cases hm with
    | idle => exact ih q t ht
    | @ran pid o k r s hp hx he =>
      obtain ⟨t', ht', hgu, _⟩ := L.performs hk hp hx (hg _ he)
      by_cases e : q = pid
      · subst e
        have ht : c.task q = some t := ht
        rw [ht] at ht'
        cases ht'
        exact hguar q t _ _ hk.1 hgu (ih q t ht)
      · exact hrely q t _ _ (L.others pid t' q _ _ (Ne.symm e) hk.1 hgu) (ih q t ht)
    | crashed pid => exact ih q t ht
    | started t' =>
      by_cases e : q = c.next
      · subst e
        exact hstart _ t _ fun e he => Nat.ne_of_lt ((fresh hc).hist e he)
      · simp only [upd_ne _ _ e] at ht
        exact ih q t ht
    | moved _ hx => exact hrely q t _ _ ((L.outside _ _ _ hk.1 hx).2 q) (ih q t ht)

end Sound

end Connect.Await
