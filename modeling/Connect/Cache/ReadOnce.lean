/-
  Connect.Cache.ReadOnce — processes that each cache a shared store: a cache is filled from
  the store the first time its process reads, and from then on follows only the changes its
  own process makes. A history is newest first.

  `learned` is what a process holds of a key: the store's value when it last had a reason
  to look. A cache keeps up while every change to the key is its own process's
  (`current_extends`), so it is always right when one process makes them all
  (`current_of_own`); what other processes do never reaches a filled one
  (`learned_others`), and it answers with what it held then.
-/

namespace Connect.Cache

variable {Proc Key Val : Type} [DecidableEq Proc] [DecidableEq Key]

inductive Op (Key Val : Type) where
  | put (k : Key) (v : Val)
  | drop (k : Key)
  | read

structure Event (Proc Key Val : Type) where
  proc : Proc
  op : Op Key Val

def Op.changes (k : Key) : Op Key Val → Bool
  | .put k' _ => k' = k
  | .drop k' => k' = k
  | .read => false

def Op.isRead : Op Key Val → Bool
  | .read => true
  | _ => false

/-- What is stored under a key. -/
def stored (k : Key) : List (Event Proc Key Val) → Option Val
  | [] => none
  | e :: before =>
    match e.op with
    | .put k' v => if k' = k then some v else stored k before
    | .drop k' => if k' = k then none else stored k before
    | .read => stored k before

def filled (p : Proc) (h : List (Event Proc Key Val)) : Bool := h.any fun e => e.proc = p && e.op.isRead

/-- The entry of a key in the cache of a process. Filling takes the values that are `usable` and leaves the entries of
other keys; a drop of what is not stored leaves the entry too. -/
def learned (usable : Val → Bool) (p : Proc) (k : Key) : List (Event Proc Key Val) → Option Val
  | [] => none
  | e :: before =>
    if e.proc = p then
      match e.op with
      | .put k' v => if k' = k then some v else learned usable p k before
      | .drop k' => if k' = k ∧ (stored k before).isSome then none else learned usable p k before
      | .read =>
        if filled p before then learned usable p k before
        else ((stored k before).filter usable).or (learned usable p k before)
    else learned usable p k before

/-- The process holds what is stored. -/
def Current (usable : Val → Bool) (p : Proc) (k : Key) (h : List (Event Proc Key Val)) : Prop :=
  learned usable p k h = stored k h

variable {usable : Val → Bool} {p : Proc} {k : Key}

omit [DecidableEq Proc] in
theorem stored_cons_of_not_changes {e : Event Proc Key Val} (he : e.op.changes k = false)
    (h : List (Event Proc Key Val)) :
    stored k (e :: h) = stored k h := by
  obtain ⟨q, op⟩ := e
  cases op with
  | put k' v => exact if_neg (by simpa [Op.changes] using he)
  | drop k' => exact if_neg (by simpa [Op.changes] using he)
  | read => rfl

theorem learned_cons_of_ne {e : Event Proc Key Val} (he : e.proc ≠ p) (h : List (Event Proc Key Val)) :
    learned usable p k (e :: h) = learned usable p k h := if_neg he

/-- A process that holds what is stored still does after an event, unless another process changes it. -/
theorem current_step {e : Event Proc Key Val} {h : List (Event Proc Key Val)} (hc : Current usable p k h)
    (he : e.op.changes k = true → e.proc = p) : Current usable p k (e :: h) := by
  unfold Current at hc ⊢
  obtain ⟨q, op⟩ := e
  by_cases hq : q = p
  · subst hq
    cases op with
    | put k' v =>
      by_cases hk : k' = k
      · simp [learned, stored, hk]
      · simpa [learned, stored, hk] using hc
    | drop k' =>
      by_cases hk : k' = k
      · cases hs : stored k h with
        | none => simp [learned, stored, hk, hs, hc]
        | some v => simp [learned, stored, hk, hs]
      · simpa [learned, stored, hk] using hc
    | read =>
      by_cases hf : filled q h = true
      · simpa [learned, stored, hf] using hc
      · cases hs : stored k h with
        | none => simp [learned, stored, hf, hc, hs]
        | some v =>
          -- What is not usable is not taken over, but the entry held already is the same.
          by_cases hu : usable v = true <;> simp [learned, stored, hf, hc, hs, Option.filter, hu]
  · have hn : op.changes k = false := by
      cases hch : op.changes k with
      | false => rfl
      | true => exact absurd (he hch) hq
    rw [learned_cons_of_ne hq, stored_cons_of_not_changes hn]
    exact hc

theorem current_extends {later h : List (Event Proc Key Val)} (hc : Current usable p k h)
    (hl : ∀ e ∈ later, e.op.changes k = true → e.proc = p) : Current usable p k (later ++ h) := by
  induction later with
  | nil => exact hc
  | cons e later ih =>
    exact current_step (ih fun e' he' => hl e' (List.mem_cons_of_mem _ he')) (hl e List.mem_cons_self)

/-- One process that makes every change holds what is stored. -/
theorem current_of_own {h : List (Event Proc Key Val)} (hown : ∀ e ∈ h, e.op.changes k = true → e.proc = p) :
    Current usable p k h := by
  have hnil : Current usable p k ([] : List (Event Proc Key Val)) := rfl
  have hext : Current usable p k (h ++ []) := current_extends hnil hown
  rwa [List.append_nil] at hext

/-- What a process holds does not follow the others. -/
theorem learned_others {later h : List (Event Proc Key Val)} (hl : ∀ e ∈ later, e.proc ≠ p) :
    learned usable p k (later ++ h) = learned usable p k h := by
  induction later with
  | nil => rfl
  | cons e later ih =>
    rw [List.cons_append, learned_cons_of_ne (hl e List.mem_cons_self)]
    exact ih fun e' he' => hl e' (List.mem_cons_of_mem _ he')

omit [DecidableEq Proc] in
/-- What is stored was put. -/
theorem put_of_stored {v : Val} {h : List (Event Proc Key Val)} (hs : stored k h = some v) :
    ∃ e ∈ h, e.op = .put k v := by
  induction h with
  | nil => cases hs
  | cons e h ih =>
    obtain ⟨q, op⟩ := e
    by_cases hch : op.changes k = true
    · cases op with
      | put k' v' =>
        have hk : k' = k := by simpa [Op.changes] using hch
        simp only [stored, hk, if_true] at hs
        cases hs
        exact ⟨_, List.mem_cons_self, by rw [hk]⟩
      | drop k' =>
        have hk : k' = k := by simpa [Op.changes] using hch
        simp [stored, hk] at hs
      | read => cases hch
    · rw [stored_cons_of_not_changes (by simpa using hch)] at hs
      obtain ⟨e', he', hop⟩ := ih hs
      exact ⟨e', List.mem_cons_of_mem _ he', hop⟩

omit [DecidableEq Proc] [DecidableEq Key] in
theorem put_of_later {v : Val} {e : Event Proc Key Val} {h : List (Event Proc Key Val)}
    (hp : ∃ e' ∈ h, e'.op = .put k v) :
    ∃ e' ∈ e :: h, e'.op = .put k v := by
  obtain ⟨e', he', hop⟩ := hp
  exact ⟨e', List.mem_cons_of_mem _ he', hop⟩

/-- What a process holds was put. -/
theorem put_of_learned {v : Val} {h : List (Event Proc Key Val)} (hl : learned usable p k h = some v) :
    ∃ e ∈ h, e.op = .put k v := by
  induction h with
  | nil => cases hl
  | cons e h ih =>
    obtain ⟨q, op⟩ := e
    by_cases hq : q = p
    · cases op with
      | put k' v' =>
        by_cases hk : k' = k
        · simp only [learned, hq, hk, if_true] at hl
          cases hl
          exact ⟨_, List.mem_cons_self, by rw [hk]⟩
        · simp only [learned, hq, hk, if_true, if_false] at hl
          exact put_of_later (ih hl)
      | drop k' =>
        simp only [learned, hq, if_true] at hl
        split at hl
        · cases hl
        · exact put_of_later (ih hl)
      | read =>
        simp only [learned, hq, if_true] at hl
        split at hl
        · exact put_of_later (ih hl)
        · rcases Option.or_eq_some_iff.mp hl with hs | hl
          · exact put_of_later (put_of_stored (Option.filter_eq_some_iff.mp hs).1)
          · exact put_of_later (ih hl.2)
    · rw [learned_cons_of_ne hq] at hl
      exact put_of_later (ih hl)

end Connect.Cache
