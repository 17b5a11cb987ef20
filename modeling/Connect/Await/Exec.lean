/-
  Connect.Await.Exec — the executions of one coroutine from its first operation to its end.

  `Exec M R pid p s calls x s'` says that process `pid` of the system `M` can run `p` from
  the state `s` through these calls and their answers to the outcome `x`, in the state
  `s'`, where before each call and at the end the others may have moved the state by `R`.

  The rules take the execution of a composed coroutine apart. `Prompt c` are the
  coroutines that let the exception `c` through wherever it is injected, and raise it for
  no other reason. `Bare` are those that let every exception through.
-/

import Connect.Await.Pool

namespace Connect.Await

structure Call (S : Sig) (ε : Type) where
  op : S.Op
  ans : Except ε (S.Ret op)

variable {S : Sig} {ε α β γ : Type}

def Call.raised (call : Call S ε) : Bool :=
  match call.ans with
  | .ok _ => false
  | .error _ => true

def Exec (M : System S ε γ) (R : M.State → M.State → Prop) (pid : Nat) :
    Prog S ε α → M.State → List (Call S ε) → Except ε α → M.State → Prop
  | .ret a, s, calls, x, s' => calls = [] ∧ x = .ok a ∧ R s s'
  | .raise e, s, calls, x, s' => calls = [] ∧ x = .error e ∧ R s s'
  | .op o k, s, calls, x, s' => ∃ s₁ r s₂ rest,
      R s s₁ ∧ M.exec pid s₁ o r = some s₂ ∧ calls = ⟨o, r⟩ :: rest ∧ Exec M R pid (k r) s₂ rest x s'

section Rules

variable {M : System S ε γ} {R : M.State → M.State → Prop} {pid : Nat} {s s' : M.State} {calls : List (Call S ε)}

theorem exec_await {o : S.Op} {x : Except ε (S.Ret o)} (h : Exec M R pid (.await o) s calls x s') :
    ∃ s₁ s₂, R s s₁ ∧ M.exec pid s₁ o x = some s₂ ∧ R s₂ s' ∧ calls = [⟨o, x⟩] := by
  obtain ⟨s₁, r, s₂, rest, hr, hx, rfl, hk⟩ := h
  cases r with
  | ok a =>
    obtain ⟨rfl, rfl, hr'⟩ := hk
    exact ⟨s₁, s₂, hr, hx, hr', rfl⟩
  | error e =>
    obtain ⟨rfl, rfl, hr'⟩ := hk
    exact ⟨s₁, s₂, hr, hx, hr', rfl⟩

/-- The first coroutine raises, or it returns and the second goes on. -/
theorem exec_bind (hR : ∀ s, R s s) {p : Prog S ε α} {f : α → Prog S ε β} {x : Except ε β}
    (h : Exec M R pid (p.bind f) s calls x s') :
    (∃ e, x = .error e ∧ Exec M R pid p s calls (.error e) s') ∨
      ∃ a s₁ first rest, calls = first ++ rest ∧ Exec M R pid p s first (.ok a) s₁ ∧
      Exec M R pid (f a) s₁ rest x s' := by
  induction p generalizing s calls with
  | ret a => exact Or.inr ⟨a, s, [], calls, rfl, ⟨rfl, rfl, hR s⟩, h⟩
  | raise e => exact Or.inl ⟨e, h.2.1, h.1, rfl, h.2.2⟩
  | op o k ih =>
    obtain ⟨s₁, r, s₂, rest, hr, hx, rfl, hk⟩ := h
    rcases ih r hk with ⟨e, he, hp⟩ | ⟨a, s₃, first, rest', rfl, hp, hf⟩
    · exact Or.inl ⟨e, he, s₁, r, s₂, rest, hr, hx, rfl, hp⟩
    · exact Or.inr ⟨a, s₃, ⟨o, r⟩ :: first, rest', rfl, ⟨s₁, r, s₂, first, hr, hx, rfl, hp⟩, hf⟩

theorem exec_bind_ok (hR : ∀ s, R s s) {p : Prog S ε α} {f : α → Prog S ε β} {b : β}
    (h : Exec M R pid (p.bind f) s calls (.ok b) s') :
    ∃ a s₁ first rest, calls = first ++ rest ∧ Exec M R pid p s first (.ok a) s₁ ∧
    Exec M R pid (f a) s₁ rest (.ok b) s' := by
  rcases exec_bind hR h with ⟨_, he, _⟩ | h
  · cases he
  · exact h

theorem exec_catching (hR : ∀ s, R s s) {p : Prog S ε α} {h : ε → Prog S ε α} {x : Except ε α}
    (hx : Exec M R pid (p.catching h) s calls x s') :
    (∃ a, x = .ok a ∧ Exec M R pid p s calls (.ok a) s') ∨
      ∃ e s₁ first rest, calls = first ++ rest ∧ Exec M R pid p s first (.error e) s₁ ∧
      Exec M R pid (h e) s₁ rest x s' := by
  induction p generalizing s calls with
  | ret a => exact Or.inl ⟨a, hx.2.1, hx.1, rfl, hx.2.2⟩
  | raise e => exact Or.inr ⟨e, s, [], calls, rfl, ⟨rfl, rfl, hR s⟩, hx⟩
  | op o k ih =>
    obtain ⟨s₁, r, s₂, rest, hr, hx, rfl, hk⟩ := hx
    rcases ih r hk with ⟨a, ha, hp⟩ | ⟨e, s₃, first, rest', rfl, hp, hf⟩
    · exact Or.inl ⟨a, ha, s₁, r, s₂, rest, hr, hx, rfl, hp⟩
    · exact Or.inr ⟨e, s₃, ⟨o, r⟩ :: first, rest', rfl, ⟨s₁, r, s₂, first, hr, hx, rfl, hp⟩, hf⟩

theorem exec_attempt {p : Prog S ε α} {x : Except ε (Except ε α)} (h : Exec M R pid p.attempt s calls x s') :
    ∃ y, x = .ok y ∧ Exec M R pid p s calls y s' := by
  induction p generalizing s calls with
  | ret a => exact ⟨.ok a, h.2.1, h.1, rfl, h.2.2⟩
  | raise e => exact ⟨.error e, h.2.1, h.1, rfl, h.2.2⟩
  | op o k ih =>
    obtain ⟨s₁, r, s₂, rest, hr, hx, rfl, hk⟩ := h
    obtain ⟨y, hy, hp⟩ := ih r hk
    exact ⟨y, hy, s₁, r, s₂, rest, hr, hx, rfl, hp⟩

/-- The cleanup runs after either outcome, and replaces it only when it raises. -/
theorem exec_finally (hR : ∀ s, R s s) {p : Prog S ε α} {c : Prog S ε Unit} {x : Except ε α}
    (h : Exec M R pid (p.finally_ c) s calls x s') :
    ∃ y s₁ s₂ first rest, calls = first ++ rest ∧ Exec M R pid p s first y s₁ ∧ R s₂ s' ∧
      ((x = y ∧ Exec M R pid c s₁ rest (.ok ()) s₂) ∨ ∃ e, x = .error e ∧ Exec M R pid c s₁ rest (.error e) s₂) := by
  induction p generalizing s calls with
  | ret a =>
    rcases exec_bind hR h with ⟨e, he, hc⟩ | ⟨_, s₁, first, rest, rfl, hc, rfl, rfl, hr⟩
    · exact ⟨.ok a, s, s', [], calls, rfl, ⟨rfl, rfl, hR s⟩, hR s', Or.inr ⟨e, he, hc⟩⟩
    · exact ⟨.ok a, s, s₁, [], first, List.append_nil _, ⟨rfl, rfl, hR s⟩, hr, Or.inl ⟨rfl, hc⟩⟩
  | raise e₀ =>
    rcases exec_bind hR h with ⟨e, he, hc⟩ | ⟨_, s₁, first, rest, rfl, hc, rfl, rfl, hr⟩
    · exact ⟨.error e₀, s, s', [], calls, rfl, ⟨rfl, rfl, hR s⟩, hR s', Or.inr ⟨e, he, hc⟩⟩
    · exact ⟨.error e₀, s, s₁, [], first, List.append_nil _, ⟨rfl, rfl, hR s⟩, hr, Or.inl ⟨rfl, hc⟩⟩
  | op o k ih =>
    obtain ⟨s₁, r, s₂, rest, hr, hx, rfl, hk⟩ := h
    obtain ⟨y, s₃, s₄, first, rest', rfl, hp, hr', hc⟩ := ih r hk
    exact ⟨y, s₃, s₄, ⟨o, r⟩ :: first, rest', rfl, ⟨s₁, r, s₂, first, hr, hx, rfl, hp⟩, hr', hc⟩

/-- The others may do more than they did. -/
theorem exec_mono {R' : M.State → M.State → Prop} (hR : ∀ s s', R s s' → R' s s') {p : Prog S ε α} {x : Except ε α}
    (h : Exec M R pid p s calls x s') : Exec M R' pid p s calls x s' := by
  induction p generalizing s calls with
  | ret a => exact ⟨h.1, h.2.1, hR _ _ h.2.2⟩
  | raise e => exact ⟨h.1, h.2.1, hR _ _ h.2.2⟩
  | op o k ih =>
    obtain ⟨s₁, r, s₂, rest, hr, hx, rfl, hk⟩ := h
    exact ⟨s₁, r, s₂, rest, hR _ _ hr, hx, rfl, ih r hk⟩

theorem exec_uses {P : S.Op → Prop} {p : Prog S ε α} {x : Except ε α} (hp : p.Uses P)
    (h : Exec M R pid p s calls x s') :
    ∀ call ∈ calls, P call.op := by
  induction p generalizing s calls with
  | ret a => rw [h.1]; intro _ hc; cases hc
  | raise e => rw [h.1]; intro _ hc; cases hc
  | op o k ih =>
    obtain ⟨s₁, r, s₂, rest, _, _, rfl, hk⟩ := h
    intro call hc
    rcases List.mem_cons.mp hc with rfl | hc
    · exact hp.1
    · exact ih r (hp.2 r) hk call hc

/-- What the others and the operations it may use keep, the coroutine keeps. -/
theorem exec_keeps {P : S.Op → Prop} {I : M.State → Prop} (hR : ∀ s s', I s → R s s' → I s')
    (hop : ∀ s s' o r, P o → I s → M.exec pid s o r = some s' → I s') {p : Prog S ε α} {x : Except ε α}
    (hp : p.Uses P) (h : Exec M R pid p s calls x s') (hi : I s) : I s' := by
  induction p generalizing s calls with
  | ret a => exact hR _ _ hi h.2.2
  | raise e => exact hR _ _ hi h.2.2
  | op o k ih =>
    obtain ⟨s₁, r, s₂, rest, hr, hx, rfl, hk⟩ := h
    exact ih r (hp.2 r) hk (hop _ _ _ _ hp.1 (hR _ _ hi hr) hx)

end Rules

/-! ## A coroutine evaluated alone -/

/-- The calls, the outcome and the state of `p` when nobody else moves the state and every
    operation is answered from it; none if the system refuses an answer. -/
def solo (M : System S ε γ) (pid : Nat) (answer : M.State → (o : S.Op) → Except ε (S.Ret o)) :
    Prog S ε α → M.State → Option (List (Call S ε) × Except ε α × M.State)
  | .ret a, s => some ([], .ok a, s)
  | .raise e, s => some ([], .error e, s)
  | .op o k, s =>
    (M.exec pid s o (answer s o)).bind fun s' =>
      (solo M pid answer (k (answer s o)) s').map fun run => (⟨o, answer s o⟩ :: run.1, run.2)

section Solo

variable {M : System S ε γ} {pid : Nat} {answer : M.State → (o : S.Op) → Except ε (S.Ret o)} {s s' : M.State}
  {calls : List (Call S ε)} {p : Prog S ε α} {x : Except ε α}

/-- It is an execution. -/
theorem solo_exec {R : M.State → M.State → Prop} (hR : ∀ s, R s s) (h : solo M pid answer p s = some (calls, x, s')) :
    Exec M R pid p s calls x s' := by
  induction p generalizing s calls with
  | ret a => cases h; exact ⟨rfl, rfl, hR _⟩
  | raise e => cases h; exact ⟨rfl, rfl, hR _⟩
  | op o k ih =>
    obtain ⟨s₁, hx, h⟩ := Option.bind_eq_some_iff.mp h
    obtain ⟨⟨rest, x, s'⟩, hk, he⟩ := Option.map_eq_some_iff.mp h
    cases he
    exact ⟨s, answer s o, s₁, rest, hR s, hx, rfl, ih _ hk⟩

theorem solo_answers {A : (o : S.Op) → Except ε (S.Ret o) → Prop} (hA : ∀ s o, A o (answer s o))
    (h : solo M pid answer p s = some (calls, x, s')) : ∀ call ∈ calls, A call.op call.ans := by
  induction p generalizing s calls with
  | ret a => cases h; nofun
  | raise e => cases h; nofun
  | op o k ih =>
    obtain ⟨s₁, hx, h⟩ := Option.bind_eq_some_iff.mp h
    obtain ⟨⟨rest, x, s'⟩, hk, he⟩ := Option.map_eq_some_iff.mp h
    cases he
    intro call hc
    rcases List.mem_cons.mp hc with rfl | hc
    · exact hA s o
    · exact ih _ hk call hc

end Solo

/-! ## A coroutine against any answers -/

/-- Every operation may be answered with anything. -/
def anything (S : Sig) (ε : Type) : System S ε Unit where
  State := Unit
  Env := Empty
  Task := Empty
  init _ := True
  exec _ s _ _ := some s
  env _ e := nomatch e
  starts _ t := nomatch t
  code _ t := nomatch t

/-- `p` makes these calls when it is answered so, and comes to `x`. -/
abbrev Plays (p : Prog S ε α) (calls : List (Call S ε)) (x : Except ε α) : Prop :=
  Exec (anything S ε) Eq 0 p () calls x ()

/-- What `f` picks out of the operations of a run. -/
def picked {β : Type} (f : S.Op → Option β) (calls : List (Call S ε)) : List β :=
  calls.filterMap fun call => f call.op

theorem picked_append {β : Type} (f : S.Op → Option β) (xs ys : List (Call S ε)) :
    picked f (xs ++ ys) = picked f xs ++ picked f ys := List.filterMap_append

theorem mem_picked {β : Type} {f : S.Op → Option β} {calls : List (Call S ε)} {b : β} :
    b ∈ picked f calls ↔ ∃ call ∈ calls, f call.op = some b := List.mem_filterMap

theorem picked_none {M : System S ε γ} {R : M.State → M.State → Prop} {pid : Nat} {s s' : M.State}
    {calls : List (Call S ε)}
    {β : Type} {f : S.Op → Option β} {p : Prog S ε α} {x : Except ε α} (hp : p.Uses fun o => f o = none)
    (h : Exec M R pid p s calls x s') : picked f calls = [] :=
  List.filterMap_eq_nil_iff.mpr (exec_uses hp h)

/-! ## A coroutine that returns while the answers are as agreed -/

/-- As long as the answers satisfy `A`, it returns, and a value in `Q`. -/
def Yields (A : (o : S.Op) → Except ε (S.Ret o) → Prop) (Q : α → Prop) : Prog S ε α → Prop
  | .ret a => Q a
  | .raise _ => False
  | .op o k => ∀ r, A o r → Yields A Q (k r)

namespace Yields

variable {A : (o : S.Op) → Except ε (S.Ret o) → Prop} {Q : α → Prop}

theorem await {o : S.Op} {Q : S.Ret o → Prop} (h : ∀ r, A o r → ∃ v, r = .ok v ∧ Q v) :
    Yields A Q (.await o : Prog S ε _) := by
  intro r hr
  obtain ⟨v, rfl, hv⟩ := h r hr
  exact hv

/-- An operation that is always answered. -/
theorem returns {o : S.Op} (h : ∀ r, A o r → ∃ v, r = .ok v) : Yields A (fun _ => True) (.await o : Prog S ε _) :=
  .await fun r hr => (h r hr).imp fun _ he => ⟨he, trivial⟩

theorem bind {Q' : β → Prop} {p : Prog S ε α} {f : α → Prog S ε β} (hp : Yields A Q p)
    (hf : ∀ a, Q a → Yields A Q' (f a)) :
    Yields A Q' (p.bind f) := by
  induction p with
  | ret a => exact hf a hp
  | raise e => exact hp.elim
  | op o k ih => exact fun r hr => ih r (hp r hr)

theorem ends {M : System S ε γ} {R : M.State → M.State → Prop} {pid : Nat} {s s' : M.State} {calls : List (Call S ε)}
    {p : Prog S ε α} {x : Except ε α} (hp : Yields A Q p) (h : Exec M R pid p s calls x s')
    (hok : ∀ call ∈ calls, A call.op call.ans) :
    ∃ a, x = .ok a ∧ Q a := by
  induction p generalizing s calls with
  | ret a => exact ⟨a, h.2.1, hp⟩
  | raise e => exact hp.elim
  | op o k ih =>
    obtain ⟨s₁, r, s₂, rest, _, _, rfl, hk⟩ := h
    exact ih r (hp r (hok ⟨o, r⟩ List.mem_cons_self)) hk fun call hc => hok call (List.mem_cons_of_mem _ hc)

/-- The first coroutine returns, and the second goes on. -/
theorem goes_on {M : System S ε γ} {R : M.State → M.State → Prop} {pid : Nat} {s s' : M.State}
    {calls : List (Call S ε)}
    (hR : ∀ s, R s s) {p : Prog S ε α} {f : α → Prog S ε β} {x : Except ε β} (hp : Yields A Q p)
    (h : Exec M R pid (p.bind f) s calls x s') (hok : ∀ call ∈ calls, A call.op call.ans) :
    ∃ a s₁ first rest, calls = first ++ rest ∧ Q a ∧ Exec M R pid p s first (.ok a) s₁ ∧
    Exec M R pid (f a) s₁ rest x s' ∧
      ∀ call ∈ rest, A call.op call.ans := by
  rcases Await.exec_bind hR h with ⟨e, _, hx⟩ | ⟨a, s₁, first, rest, rfl, hx, hf⟩
  · obtain ⟨_, he, _⟩ := hp.ends hx hok
    cases he
  · obtain ⟨hfirst, hrest⟩ := List.forall_mem_append.mp hok
    obtain ⟨_, he, hq⟩ := hp.ends hx hfirst
    cases he
    exact ⟨a, s₁, first, rest, rfl, hq, hx, hf, hrest⟩

end Yields

/-! ## A coroutine with one server -/

structure Played (S : Sig) (ε α σ : Type) where
  asked : List S.Op
  outcome : Except ε α
  left : σ

/-- The run of a coroutine whose calls one server answers, from its state. -/
def play {σ : Type} (serve : σ → (o : S.Op) → Except ε (S.Ret o) × σ) : Prog S ε α → σ → Played S ε α σ
  | .ret a, s => ⟨[], .ok a, s⟩
  | .raise e, s => ⟨[], .error e, s⟩
  | .op o k, s =>
    let answer := serve s o
    let rest := play serve (k answer.1) answer.2
    ⟨o :: rest.asked, rest.outcome, rest.left⟩

section Play

variable {σ : Type} {serve : σ → (o : S.Op) → Except ε (S.Ret o) × σ} {s s' : σ}

theorem play_await {o : S.Op} {a : S.Ret o} {f : S.Ret o → Prog S ε α} (h : serve s o = (.ok a, s')) :
    play serve ((Prog.await o).bind f) s =
      ⟨o :: (play serve (f a) s').asked, (play serve (f a) s').outcome, (play serve (f a) s').left⟩ := by
  simp only [Prog.await, Prog.bind, play, h]

theorem play_bind {p : Prog S ε α} {f : α → Prog S ε β} {a : α} (h : (play serve p s).outcome = .ok a) :
    play serve (p.bind f) s =
      ⟨(play serve p s).asked ++ (play serve (f a) (play serve p s).left).asked,
        (play serve (f a) (play serve p s).left).outcome, (play serve (f a) (play serve p s).left).left⟩ := by
  induction p generalizing s with
  | ret b =>
    cases h
    rfl
  | raise e => cases h
  | op o k ih => simp only [Prog.bind, play, ih _ h, List.cons_append]

theorem play_catching {p : Prog S ε α} (handler : ε → Prog S ε α) {a : α} (h : (play serve p s).outcome = .ok a) :
    play serve (p.catching handler) s = play serve p s := by
  induction p generalizing s with
  | ret b => rfl
  | raise e => cases h
  | op o k ih => simp only [Prog.catching, play, ih _ h]

end Play

/-! ## A coroutine that runs alone -/

/-- `p` runs from `s` to its end while no other process moves. -/
def Runs (M : System S ε γ) (pid : Nat) (p : Prog S ε α) (s : M.State) (x : Except ε α) (s' : M.State) : Prop :=
  ∃ calls, Exec M Eq pid p s calls x s'

namespace Runs

variable {M : System S ε γ} {pid : Nat} {s s' : M.State}

@[simp] theorem ret_iff {a : α} {x : Except ε α} : Runs M pid (.ret a) s x s' ↔ x = .ok a ∧ s' = s :=
  ⟨fun ⟨_, _, hx, hs⟩ => ⟨hx, hs.symm⟩, fun ⟨hx, hs⟩ => ⟨[], rfl, hx, hs.symm⟩⟩

@[simp] theorem raise_iff {e : ε} {x : Except ε α} : Runs M pid (.raise e) s x s' ↔ x = .error e ∧ s' = s :=
  ⟨fun ⟨_, _, hx, hs⟩ => ⟨hx, hs.symm⟩, fun ⟨hx, hs⟩ => ⟨[], rfl, hx, hs.symm⟩⟩

theorem op_iff {o : S.Op} {k : Except ε (S.Ret o) → Prog S ε α} {x : Except ε α} :
    Runs M pid (.op o k) s x s' ↔ ∃ r s₁, M.exec pid s o r = some s₁ ∧ Runs M pid (k r) s₁ x s' := by
  constructor
  · intro h
    obtain ⟨_, _, r, s₁, rest, rfl, hx, _, hk⟩ := h
    exact ⟨r, s₁, hx, rest, hk⟩
  · intro h
    obtain ⟨r, s₁, hx, rest, hk⟩ := h
    exact ⟨⟨o, r⟩ :: rest, s, r, s₁, rest, rfl, hx, rfl, hk⟩

theorem await_iff {o : S.Op} {x : Except ε (S.Ret o)} :
    Runs M pid (.await o) s x s' ↔ M.exec pid s o x = some s' := by
  rw [Prog.await, op_iff]
  constructor
  · intro h
    obtain ⟨r, s₁, hx, hk⟩ := h
    cases r with
    | ok a =>
      obtain ⟨rfl, rfl⟩ := ret_iff.mp hk
      exact hx
    | error e =>
      obtain ⟨rfl, rfl⟩ := raise_iff.mp hk
      exact hx
  · intro hx
    refine ⟨x, s', hx, ?_⟩
    cases x with
    | ok a => exact ret_iff.mpr ⟨rfl, rfl⟩
    | error e => exact raise_iff.mpr ⟨rfl, rfl⟩

/-- The first coroutine returns and the second goes on, or it raises. -/
theorem bind_iff {p : Prog S ε α} {f : α → Prog S ε β} {x : Except ε β} :
    Runs M pid (p.bind f) s x s' ↔
      (∃ a s₁, Runs M pid p s (.ok a) s₁ ∧ Runs M pid (f a) s₁ x s') ∨ ∃ e, x = .error e ∧
      Runs M pid p s (.error e) s' := by
  induction p generalizing s with
  | ret a =>
    constructor
    · exact fun h => Or.inl ⟨a, s, ret_iff.mpr ⟨rfl, rfl⟩, h⟩
    · intro h
      rcases h with ⟨_, _, hp, hf⟩ | ⟨_, _, hp⟩
      · obtain ⟨he, rfl⟩ := ret_iff.mp hp
        cases he
        exact hf
      · cases (ret_iff.mp hp).1
  | raise e =>
    constructor
    · exact fun h => Or.inr ⟨e, (raise_iff.mp h).1, raise_iff.mpr ⟨rfl, (raise_iff.mp h).2⟩⟩
    · intro h
      rcases h with ⟨_, _, hp, _⟩ | ⟨_, rfl, hp⟩
      · cases (raise_iff.mp hp).1
      · obtain ⟨he, rfl⟩ := raise_iff.mp hp
        cases he
        exact raise_iff.mpr ⟨rfl, rfl⟩
  | op o k ih =>
    rw [Prog.bind, op_iff]
    simp only [ih, op_iff]
    constructor
    · intro h
      obtain ⟨r, s₁, hx, ⟨a, s₂, hp, hf⟩ | ⟨e, rfl, hp⟩⟩ := h
      · exact Or.inl ⟨a, s₂, ⟨r, s₁, hx, hp⟩, hf⟩
      · exact Or.inr ⟨e, rfl, r, s₁, hx, hp⟩
    · intro h
      rcases h with ⟨a, s₂, ⟨r, s₁, hx, hp⟩, hf⟩ | ⟨e, rfl, r, s₁, hx, hp⟩
      · exact ⟨r, s₁, hx, Or.inl ⟨a, s₂, hp, hf⟩⟩
      · exact ⟨r, s₁, hx, Or.inr ⟨e, rfl, hp⟩⟩

theorem bind_ok {p : Prog S ε α} {f : α → Prog S ε β} {b : β} :
    Runs M pid (p.bind f) s (.ok b) s' ↔ ∃ a s₁, Runs M pid p s (.ok a) s₁ ∧ Runs M pid (f a) s₁ (.ok b) s' := by
  rw [bind_iff]
  constructor
  · intro h
    rcases h with h | ⟨_, he, _⟩
    · exact h
    · cases he
  · exact Or.inl

/-- The handler runs when the coroutine raises. -/
theorem catching_iff {p : Prog S ε α} {h : ε → Prog S ε α} {x : Except ε α} :
    Runs M pid (p.catching h) s x s' ↔
      (∃ a, x = .ok a ∧ Runs M pid p s (.ok a) s') ∨ ∃ e s₁, Runs M pid p s (.error e) s₁ ∧
      Runs M pid (h e) s₁ x s' := by
  induction p generalizing s with
  | ret a =>
    constructor
    · exact fun hp => Or.inl ⟨a, (ret_iff.mp hp).1, ret_iff.mpr ⟨rfl, (ret_iff.mp hp).2⟩⟩
    · intro h
      rcases h with ⟨_, rfl, hp⟩ | ⟨_, _, hp, _⟩
      · exact hp
      · cases (ret_iff.mp hp).1
  | raise e =>
    constructor
    · exact fun hh => Or.inr ⟨e, s, raise_iff.mpr ⟨rfl, rfl⟩, hh⟩
    · intro h
      rcases h with ⟨_, _, hp⟩ | ⟨_, _, hp, hh⟩
      · cases (raise_iff.mp hp).1
      · obtain ⟨he, rfl⟩ := raise_iff.mp hp
        cases he
        exact hh
  | op o k ih =>
    rw [Prog.catching, op_iff]
    simp only [ih, op_iff]
    constructor
    · intro h
      obtain ⟨r, s₁, hx, ⟨a, rfl, hp⟩ | ⟨e, s₂, hp, hh⟩⟩ := h
      · exact Or.inl ⟨a, rfl, r, s₁, hx, hp⟩
      · exact Or.inr ⟨e, s₂, ⟨r, s₁, hx, hp⟩, hh⟩
    · intro h
      rcases h with ⟨a, rfl, r, s₁, hx, hp⟩ | ⟨e, s₂, ⟨r, s₁, hx, hp⟩, hh⟩
      · exact ⟨r, s₁, hx, Or.inl ⟨a, rfl, hp⟩⟩
      · exact ⟨r, s₁, hx, Or.inr ⟨e, s₂, hp, hh⟩⟩

/-- What the operations it may use keep, the coroutine keeps. -/
theorem keeps {P : S.Op → Prop} {I : M.State → Prop} (hop : ∀ s s' o r, P o → I s → M.exec pid s o r = some s' → I s')
    {p : Prog S ε α} {x : Except ε α} (hp : p.Uses P) (h : Runs M pid p s x s') (hi : I s) : I s' := by
  obtain ⟨_, h⟩ := h
  refine exec_keeps (fun a b (ha : I a) hab => ?_) hop hp h hi
  rw [← hab]
  exact ha

end Runs

/-! ## An exception that goes straight through -/

def Prompt (c : ε) : Prog S ε α → Prop
  | .ret _ => True
  | .raise e => e ≠ c
  | .op _ k => k (.error c) = .raise c ∧ ∀ r, r ≠ .error c → Prompt c (k r)

namespace Prompt

variable {c : ε}

theorem await (o : S.Op) : Prompt c (.await o : Prog S ε _) := by
  refine ⟨rfl, fun r hr => ?_⟩
  cases r with
  | ok a => trivial
  | error e => exact fun he => hr (by rw [he])

theorem bind {p : Prog S ε α} {f : α → Prog S ε β} (hp : Prompt c p) (hf : ∀ a, Prompt c (f a)) :
    Prompt c (p.bind f) := by
  induction p with
  | ret a => exact hf a
  | raise e => exact hp
  | op o k ih =>
    refine ⟨?_, fun r hr => ih r (hp.2 r hr)⟩
    show (k (.error c)).bind f = .raise c
    rw [hp.1]
    rfl

theorem catching {p : Prog S ε α} {h : ε → Prog S ε α} (hp : Prompt c p) (hh : ∀ e, e ≠ c → Prompt c (h e))
    (hc : h c = .raise c) : Prompt c (p.catching h) := by
  induction p with
  | ret a => trivial
  | raise e => exact hh e hp
  | op o k ih =>
    refine ⟨?_, fun r hr => ih r (hp.2 r hr)⟩
    show (k (.error c)).catching h = .raise c
    rw [hp.1]
    exact hc

theorem attempt {p : Prog S ε α} {f : Except ε α → Prog S ε β} (hp : Prompt c p) (hc : f (.error c) = .raise c)
    (hf : ∀ r, r ≠ .error c → Prompt c (f r)) : Prompt c (p.attempt.bind f) := by
  induction p with
  | ret a => exact hf (.ok a) nofun
  | raise e => exact hf (.error e) fun he => hp (Except.error.inj he)
  | op o k ih =>
    refine ⟨?_, fun r hr => ih r (hp.2 r hr)⟩
    show (k (.error c)).attempt.bind f = .raise c
    rw [hp.1]
    exact hc

/-- It ends in `c` exactly when `c` was an answer. -/
theorem ends {M : System S ε γ} {R : M.State → M.State → Prop} {pid : Nat} {s s' : M.State} {calls : List (Call S ε)}
    {p : Prog S ε α} {x : Except ε α} (hp : Prompt c p) (h : Exec M R pid p s calls x s') :
    x = .error c ↔ ∃ call ∈ calls, call.ans = .error c := by
  induction p generalizing s calls with
  | ret a =>
    obtain ⟨rfl, rfl, _⟩ := h
    simp
  | raise e =>
    obtain ⟨rfl, rfl, _⟩ := h
    have : e ≠ c := hp
    simp [this]
  | op o k ih =>
    obtain ⟨s₁, r, s₂, rest, _, _, rfl, hk⟩ := h
    by_cases hr : r = .error c
    · subst hr
      rw [hp.1] at hk
      exact ⟨fun _ => ⟨_, List.mem_cons_self, rfl⟩, fun _ => hk.2.1⟩
    · rw [ih r (hp.2 r hr) hk]
      simp [hr]

end Prompt

/-! ## Coroutines that catch nothing -/

def Bare : Prog S ε α → Prop
  | .ret _ => True
  | .raise _ => False
  | .op _ k => (∀ e, k (.error e) = .raise e) ∧ ∀ a, Bare (k (.ok a))

namespace Bare

theorem await (o : S.Op) : Bare (.await o : Prog S ε _) := ⟨fun _ => rfl, fun _ => trivial⟩

theorem bind {p : Prog S ε α} {f : α → Prog S ε β} (hp : Bare p) (hf : ∀ a, Bare (f a)) : Bare (p.bind f) := by
  induction p with
  | ret a => exact hf a
  | raise e => exact hp.elim
  | op o k ih =>
    refine ⟨fun e => ?_, fun a => ih (.ok a) (hp.2 a)⟩
    show (k (.error e)).bind f = .raise e
    rw [hp.1 e]
    rfl

theorem prompt {c : ε} {p : Prog S ε α} (hp : Bare p) : Prompt c p := by
  induction p with
  | ret a => trivial
  | raise e => exact hp.elim
  | op o k ih =>
    refine ⟨hp.1 c, fun r hr => ?_⟩
    cases r with
    | ok a => exact ih (.ok a) (hp.2 a)
    | error e =>
      rw [hp.1 e]
      exact fun he => hr (by rw [he])

/-- It returns when no call raised, and raises what its last call raised. -/
theorem ends {M : System S ε γ} {R : M.State → M.State → Prop} {pid : Nat} {s s' : M.State} {calls : List (Call S ε)}
    {p : Prog S ε α} {x : Except ε α} (hp : Bare p) (h : Exec M R pid p s calls x s') :
    (∀ a, x = .ok a → ∀ call ∈ calls, call.raised = false) ∧
      ∀ e, x = .error e → ∃ first last, calls = first ++ [last] ∧ last.raised = true ∧
      ∀ call ∈ first, call.raised = false := by
  induction p generalizing s calls with
  | ret a =>
    obtain ⟨rfl, rfl, _⟩ := h
    exact ⟨fun _ _ _ hc => (by cases hc), fun e he => (by cases he)⟩
  | raise e => exact hp.elim
  | op o k ih =>
    obtain ⟨s₁, r, s₂, rest, _, _, rfl, hk⟩ := h
    cases r with
    | error e =>
      rw [hp.1 e] at hk
      obtain ⟨rfl, rfl, _⟩ := hk
      refine ⟨fun _ ha => (by cases ha), fun _ _ => ⟨[], _, rfl, rfl, fun _ hc => (by cases hc)⟩⟩
    | ok a =>
      obtain ⟨hok, herr⟩ := ih (.ok a) (hp.2 a) hk
      refine ⟨fun b hb call hc => ?_, fun e he => ?_⟩
      · rcases List.mem_cons.mp hc with rfl | hc
        · rfl
        · exact hok b hb call hc
      · obtain ⟨first, last, rfl, hlast, hfirst⟩ := herr e he
        refine ⟨⟨o, .ok a⟩ :: first, last, rfl, hlast, fun call hc => ?_⟩
        rcases List.mem_cons.mp hc with rfl | hc
        · rfl
        · exact hfirst call hc

end Bare

end Connect.Await
