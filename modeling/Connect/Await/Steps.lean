/-
  Connect.Await.Steps — runs of a machine that takes one step for each choice.

  `step s a` is the state after the choice `a`, or `none` when it cannot be taken. A state
  is stuck when no choice can be taken in it. A machine whose every step lowers a measure
  has no endless run, and from every state it gets stuck; one machine simulates another
  when it answers every step by a run.
-/

namespace Connect.Await.Steps

variable {σ τ α β : Type} {step : σ → α → Option σ}

def run (step : σ → α → Option σ) : σ → List α → Option σ
  | s, [] => some s
  | s, a :: as => (step s a).bind fun t => run step t as

def Stuck (step : σ → α → Option σ) (s : σ) : Prop := ∀ a, step s a = none

theorem run_cons {s u : σ} {a : α} {as : List α} (h : run step s (a :: as) = some u) :
    ∃ t, step s a = some t ∧ run step t as = some u := Option.bind_eq_some_iff.mp h

theorem run_append (s : σ) (as bs : List α) :
    run step s (as ++ bs) = (run step s as).bind fun t => run step t bs := by
  induction as generalizing s with
  | nil => rfl
  | cons a as ih =>
    rw [List.cons_append, run, run, Option.bind_assoc]
    exact congrArg _ (funext ih)

/-- What every step keeps holds in every state a run reaches. -/
theorem keeps {I : σ → Prop} (hstep : ∀ s a t, I s → step s a = some t → I t) {s t : σ} {as : List α}
    (hs : I s) (h : run step s as = some t) : I t := by
  induction as generalizing s with
  | nil =>
    cases h
    exact hs
  | cons a as ih =>
    obtain ⟨u, hu, h⟩ := run_cons h
    exact ih (hstep s a u hs hu) h

section Measure

variable {μ : σ → Nat} (hdown : ∀ s a t, step s a = some t → μ t < μ s)
include hdown

theorem bounded {s t : σ} {as : List α} (h : run step s as = some t) : as.length + μ t ≤ μ s := by
  induction as generalizing s with
  | nil =>
    cases h
    simp
  | cons a as ih =>
    obtain ⟨u, hu, h⟩ := run_cons h
    have hd := hdown s a u hu
    have hrest := ih h
    rw [List.length_cons]
    omega

theorem gets_stuck (s : σ) : ∃ as t, run step s as = some t ∧ Stuck step t := by
  induction hn : μ s using Nat.strongRecOn generalizing s with
  | ind n ih =>
    by_cases hs : Stuck step s
    · exact ⟨[], s, rfl, hs⟩
    · obtain ⟨a, ha⟩ := Classical.not_forall.mp hs
      obtain ⟨u, hu⟩ := Option.ne_none_iff_exists'.mp ha
      obtain ⟨as, t, has, ht⟩ := ih (μ u) (hn ▸ hdown s a u hu) u rfl
      refine ⟨a :: as, t, ?_, ht⟩
      rw [run, hu]
      exact has

end Measure

/-- A relation that survives every step, the other machine making some steps of its own. -/
theorem simulates {other : τ → β → Option τ} {R : σ → τ → Prop}
    (hstep : ∀ s a s' t, R s t → step s a = some s' → ∃ bs t', run other t bs = some t' ∧ R s' t')
    {s s' : σ} {as : List α} {t : τ} (hR : R s t) (h : run step s as = some s') :
    ∃ bs t', run other t bs = some t' ∧ R s' t' := by
  induction as generalizing s t with
  | nil =>
    cases h
    exact ⟨[], t, rfl, hR⟩
  | cons a as ih =>
    obtain ⟨u, hu, h⟩ := run_cons h
    obtain ⟨bs, t₁, hbs, hR⟩ := hstep s a u t hR hu
    obtain ⟨cs, t₂, hcs, hR⟩ := ih hR h
    refine ⟨bs ++ cs, t₂, ?_, hR⟩
    rw [run_append, hbs]
    exact hcs

end Connect.Await.Steps
