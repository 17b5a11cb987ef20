/-
  Connect.Await.Prog — coroutines over awaited operations.

  A coroutine returns a value, raises, or awaits one operation of its signature and goes
  on with the answer. An answer is what the operation returns or an exception raised at
  the await, so every await is a point where the coroutine may be interrupted. Loops are
  recursions over finite lists, hence the tree is an inductive type and the facts below
  are inductions on it.

  `catching` is `try/except` (the handler decides which exceptions it takes), `finally_`
  is `try/finally`, `lift` runs a coroutine of one signature inside a sum of two.
-/

namespace Connect.Await

/-- Operations, and what each returns when it does not raise. -/
structure Sig where
  Op : Type
  Ret : Op → Type

def Sig.sum (S T : Sig) : Sig := ⟨S.Op ⊕ T.Op, Sum.elim S.Ret T.Ret⟩

inductive Prog (S : Sig) (ε α : Type) : Type where
  | ret (a : α)
  | raise (e : ε)
  | op (o : S.Op) (k : Except ε (S.Ret o) → Prog S ε α)

namespace Prog

variable {S T : Sig} {ε α β : Type}

def bind : Prog S ε α → (α → Prog S ε β) → Prog S ε β
  | .ret a, f => f a
  | .raise e, _ => .raise e
  | .op o k, f => .op o fun r => (k r).bind f

instance : Monad (Prog S ε) where
  pure := .ret
  bind := bind

def await (o : S.Op) : Prog S ε (S.Ret o) :=
  .op o fun
    | .ok a => .ret a
    | .error e => .raise e

/-- An operation of the left part of a sum. -/
def left (o : S.Op) : Prog (S.sum T) ε (S.Ret o) := @await (S.sum T) ε (Sum.inl o)

/-- `try: p  except e: h e`. -/
def catching : Prog S ε α → (ε → Prog S ε α) → Prog S ε α
  | .ret a, _ => .ret a
  | .raise e, h => h e
  | .op o k, h => .op o fun r => (k r).catching h

/-- `try: p  finally: c`. -/
def finally_ : Prog S ε α → Prog S ε Unit → Prog S ε α
  | .ret a, c => c.bind fun _ => .ret a
  | .raise e, c => c.bind fun _ => .raise e
  | .op o k, c => .op o fun r => (k r).finally_ c

/-- The outcome of `p` as a value. -/
def attempt : Prog S ε α → Prog S ε (Except ε α)
  | .ret a => .ret (.ok a)
  | .raise e => .ret (.error e)
  | .op o k => .op o fun r => (k r).attempt

def lift : Prog T ε α → Prog (S.sum T) ε α
  | .ret a => .ret a
  | .raise e => .raise e
  | .op o k => .op (Sum.inr o : (S.sum T).Op) fun r => (k r).lift

@[simp] theorem pure_def (a : α) : (pure a : Prog S ε α) = .ret a := rfl
@[simp] theorem bind_def (p : Prog S ε α) (f : α → Prog S ε β) : p >>= f = p.bind f := rfl
@[simp] theorem map_def (f : α → β) (p : Prog S ε α) : f <$> p = p.bind fun a => .ret (f a) := rfl
@[simp] theorem ret_bind (a : α) (f : α → Prog S ε β) : (ret a : Prog S ε α).bind f = f a := rfl
@[simp] theorem raise_bind (e : ε) (f : α → Prog S ε β) : (raise e : Prog S ε α).bind f = .raise e := rfl

theorem bind_assoc {γ : Type} (p : Prog S ε α) (f : α → Prog S ε β) (g : β → Prog S ε γ) :
    (p.bind f).bind g = p.bind fun a => (f a).bind g := by
  induction p with
  | ret a => rfl
  | raise e => rfl
  | op o k ih =>
    show Prog.op o _ = Prog.op o _
    congr 1
    funext r
    exact ih r

/-! ## Operations a coroutine may use -/

/-- Every operation the coroutine can ever await satisfies `P`. -/
def Uses (P : S.Op → Prop) : Prog S ε α → Prop
  | .ret _ => True
  | .raise _ => True
  | .op o k => P o ∧ ∀ r, (k r).Uses P

variable {P : S.Op → Prop}

theorem Uses.mono {Q : S.Op → Prop} (h : ∀ o, P o → Q o) {p : Prog S ε α} (hp : p.Uses P) : p.Uses Q := by
  induction p with
  | ret a => trivial
  | raise e => trivial
  | op o k ih => exact ⟨h o hp.1, fun r => ih r (hp.2 r)⟩

theorem uses_all (p : Prog S ε α) : p.Uses fun _ => True := by
  induction p with
  | ret a => trivial
  | raise e => trivial
  | op o k ih => exact ⟨trivial, ih⟩

theorem Uses.bind {p : Prog S ε α} {f : α → Prog S ε β} (hp : p.Uses P) (hf : ∀ a, (f a).Uses P) :
    (p.bind f).Uses P := by
  induction p with
  | ret a => exact hf a
  | raise e => trivial
  | op o k ih => exact ⟨hp.1, fun r => ih r (hp.2 r)⟩

theorem Uses.await {o : S.Op} (h : P o) : (await o : Prog S ε _).Uses P :=
  ⟨h, fun r => by cases r <;> trivial⟩

theorem Uses.catching {p : Prog S ε α} {h : ε → Prog S ε α} (hp : p.Uses P) (hh : ∀ e, (h e).Uses P) :
    (p.catching h).Uses P := by
  induction p with
  | ret a => trivial
  | raise e => exact hh e
  | op o k ih => exact ⟨hp.1, fun r => ih r (hp.2 r)⟩

theorem Uses.finally_ {p : Prog S ε α} {c : Prog S ε Unit} (hp : p.Uses P) (hc : c.Uses P) :
    (p.finally_ c).Uses P := by
  induction p with
  | ret a => exact hc.bind fun _ => trivial
  | raise e => exact hc.bind fun _ => trivial
  | op o k ih => exact ⟨hp.1, fun r => ih r (hp.2 r)⟩

theorem Uses.attempt {p : Prog S ε α} (hp : p.Uses P) : p.attempt.Uses P := by
  induction p with
  | ret a => trivial
  | raise e => trivial
  | op o k ih => exact ⟨hp.1, fun r => ih r (hp.2 r)⟩

theorem Uses.lift {P : (S.sum T).Op → Prop} {p : Prog T ε α} (hp : p.Uses fun o => P (.inr o)) :
    (p.lift : Prog (S.sum T) ε α).Uses P := by
  induction p with
  | ret a => trivial
  | raise e => trivial
  | op o k ih => exact ⟨hp.1, fun r => ih r (hp.2 r)⟩

/-- What a coroutine may use after its first call. -/
theorem uses_tail {o o' : S.Op} {f : S.Ret o → Prog S ε α} {k : Except ε (S.Ret o') → Prog S ε α}
    (h : (Prog.await o).bind f = .op o' k) (hf : ∀ v, (f v).Uses P) : ∀ r, (k r).Uses P := by
  cases h
  intro r
  cases r with
  | ok v => exact hf v
  | error e => trivial

/-! ## How long a coroutine is -/

/-- It ends within `n` operations, whatever the answers. -/
def Within : Nat → Prog S ε α → Prop
  | _, .ret _ => True
  | _, .raise _ => True
  | n, .op _ k => ∃ m, n = m + 1 ∧ ∀ r, Within m (k r)

theorem Within.mono {n m : Nat} (hnm : n ≤ m) {p : Prog S ε α} (h : p.Within n) : p.Within m := by
  induction p generalizing n m with
  | ret a => trivial
  | raise e => trivial
  | op o k ih =>
    obtain ⟨n', rfl, hk⟩ := h
    obtain ⟨d, rfl⟩ := Nat.exists_eq_add_of_le hnm
    exact ⟨n' + d, by omega, fun r => ih r (Nat.le_add_right n' d) (hk r)⟩

theorem Within.await (o : S.Op) : (await o : Prog S ε _).Within 1 := ⟨0, rfl, fun r => by cases r <;> trivial⟩

theorem Within.bind {n m : Nat} {p : Prog S ε α} {f : α → Prog S ε β} (hp : p.Within n) (hf : ∀ a, (f a).Within m) :
    (p.bind f).Within (n + m) := by
  induction p generalizing n with
  | ret a => exact (hf a).mono (Nat.le_add_left m n)
  | raise e => trivial
  | op o k ih =>
    obtain ⟨n', rfl, hk⟩ := hp
    exact ⟨n' + m, by omega, fun r => ih r (hk r)⟩

theorem Within.catching {n m : Nat} {p : Prog S ε α} {h : ε → Prog S ε α} (hp : p.Within n)
    (hh : ∀ e, (h e).Within m) :
    (p.catching h).Within (n + m) := by
  induction p generalizing n with
  | ret a => trivial
  | raise e => exact (hh e).mono (Nat.le_add_left m n)
  | op o k ih =>
    obtain ⟨n', rfl, hk⟩ := hp
    exact ⟨n' + m, by omega, fun r => ih r (hk r)⟩

end Prog

end Connect.Await
