/-
  Connect.Await.Funnel — several producers, one queue, and a consumer that waits for an
  end marker of each.

  A producer puts its items and the marker `none` behind them, or breaks off and puts no
  marker. Nothing is lost on the way (`Kept`), so when the consumer has one marker for
  each producer it has everything (`received`), and when one of them breaks off it never
  has that many (`all_end`).
-/

import Connect.Await.Steps
import Mathlib.Algebra.BigOperators.Ring.Finset
import Mathlib.Algebra.Order.BigOperators.Group.Finset
import Mathlib.Data.Fintype.BigOperators

namespace Connect.Await.Funnel

variable {ι α : Type}

structure State (ι α : Type) where
  /-- What a producer has still to put. -/
  todo : ι → List (Option α)
  queue : List (ι × Option α)
  /-- What the consumer has taken from the queue, in order. -/
  taken : List (ι × Option α)

inductive Action (ι : Type) where
  | put (i : ι)
  | take
  deriving DecidableEq, Repr

def step [DecidableEq ι] (s : State ι α) : Action ι → Option (State ι α)
  | .put i =>
    match s.todo i with
    | [] => none
    | m :: ms => some { s with todo := Function.update s.todo i ms, queue := s.queue ++ [(i, m)] }
  | .take =>
    match s.queue with
    | [] => none
    | m :: queue => some { s with queue, taken := s.taken ++ [m] }

def start (script : ι → List (Option α)) : State ι α := ⟨script, [], []⟩

/-! ## What is on the way -/

def items (ms : List (ι × Option α)) : List (ι × α) := ms.filterMap fun m => m.2.map fun a => (m.1, a)

/-- The number of end markers. -/
def marks (ms : List (ι × Option α)) : Nat := ms.countP fun m => m.2.isNone

@[simp] theorem items_append (ms ns : List (ι × Option α)) : items (ms ++ ns) = items ms ++ items ns :=
  List.filterMap_append

@[simp] theorem marks_append (ms ns : List (ι × Option α)) : marks (ms ++ ns) = marks ms + marks ns :=
  List.countP_append

variable [DecidableEq ι]

/-- The messages of one producer. -/
def sent (i : ι) (ms : List (ι × Option α)) : List (Option α) := (ms.filter fun m => m.1 = i).map (·.2)

@[simp] theorem sent_nil (i : ι) : sent i ([] : List (ι × Option α)) = [] := rfl

@[simp] theorem sent_append (i : ι) (ms ns : List (ι × Option α)) : sent i (ms ++ ns) = sent i ms ++ sent i ns := by
  simp [sent]

@[simp] theorem sent_same (i : ι) (m : Option α) (ms : List (ι × Option α)) :
    sent i ((i, m) :: ms) = m :: sent i ms := by
  simp [sent]

theorem sent_ne {i j : ι} (h : j ≠ i) (m : Option α) (ms : List (ι × Option α)) :
    sent i ((j, m) :: ms) = sent i ms := by
  simp [sent, h]

/-- One producer's items are those among its messages. -/
theorem items_sent (i : ι) (ms : List (ι × Option α)) :
    ((items ms).filter fun m => m.1 = i).map (·.2) = (sent i ms).filterMap id := by
  induction ms with
  | nil => rfl
  | cons m ms ih =>
    obtain ⟨j, m⟩ := m
    by_cases hj : j = i
    · subst hj
      cases m with
      | none => simpa [items] using ih
      | some a => simpa [items] using ih
    · rw [sent_ne hj, ← ih]
      cases m with
      | none => simp [items]
      | some a => simp [items, hj]

theorem marks_eq_sum [Fintype ι] (ms : List (ι × Option α)) : marks ms = ∑ i, (sent i ms).countP Option.isNone := by
  induction ms with
  | nil => simp [marks]
  | cons m ms ih =>
    obtain ⟨j, m⟩ := m
    have hone (i : ι) : (sent i ((j, m) :: ms)).countP Option.isNone =
        (sent i ms).countP Option.isNone + if j = i then (if m.isNone then 1 else 0) else 0 := by
      by_cases hj : j = i
      · subst hj
        rw [sent_same, List.countP_cons, if_pos rfl]
      · rw [sent_ne hj, if_neg hj, Nat.add_zero]
    rw [Finset.sum_congr rfl fun i _ => hone i, Finset.sum_add_distrib, Finset.sum_ite_eq,
      if_pos (Finset.mem_univ j), ← ih]
    rw [marks, List.countP_cons]
    rfl

/-! ## Producers -/

/-- What a producer puts: its items, and the marker unless it breaks off. -/
def puts (xs : List α) (ends : Bool) : List (Option α) := xs.map some ++ if ends then [none] else []

theorem count_puts (xs : List α) (ends : Bool) : (puts xs ends).countP Option.isNone = if ends then 1 else 0 := by
  cases ends <;> simp [puts, Function.comp_def]

theorem items_puts (xs : List α) (ends : Bool) : (puts xs ends).filterMap id = xs := by
  cases ends <;> simp [puts, List.filterMap_append, List.filterMap_map]

/-- The marker is the last thing a producer puts. -/
theorem whole_of_mark {xs : List α} {ends : Bool} {ms rest : List (Option α)} (h : ms ++ rest = puts xs ends)
    (hm : ms.countP Option.isNone = 1) : ends = true ∧ ms = puts xs ends := by
  have hcount := congrArg (List.countP Option.isNone) h
  rw [List.countP_append, hm, count_puts] at hcount
  cases ends with
  | false => simp at hcount
  | true =>
    refine ⟨rfl, ?_⟩
    have hrest : rest.countP Option.isNone = 0 := by simpa using hcount
    suffices rest = [] by rw [← h, this, List.append_nil]
    by_contra hne
    have hlast : rest.getLast hne = none := by
      have hl := congrArg List.getLast? h
      rw [List.getLast?_append_of_ne_nil _ hne, List.getLast?_eq_some_getLast hne] at hl
      simpa [puts] using hl
    have hmem := List.getLast_mem hne
    rw [hlast] at hmem
    simpa using List.countP_eq_zero.mp hrest none hmem

/-! ## Steps -/

theorem step_put {s : State ι α} {i : ι} {m : Option α} {ms : List (Option α)} (h : s.todo i = m :: ms) :
    step s (.put i) = some { s with todo := Function.update s.todo i ms, queue := s.queue ++ [(i, m)] } := by
  simp only [step, h]

theorem step_take {s : State ι α} {m : ι × Option α} {queue : List (ι × Option α)} (h : s.queue = m :: queue) :
    step s .take = some { s with queue, taken := s.taken ++ [m] } := by
  simp only [step, h]

/-! ## Nothing is lost -/

/-- What was taken, what is queued and what is to come are, producer for producer, what it puts. -/
def Kept (script : ι → List (Option α)) (s : State ι α) : Prop :=
  ∀ i, sent i (s.taken ++ s.queue) ++ s.todo i = script i

theorem kept_start (script : ι → List (Option α)) : Kept script (start script) := fun _ => rfl

theorem kept_step {script : ι → List (Option α)} {s t : State ι α} {a : Action ι} (h : Kept script s)
    (ha : step s a = some t) :
    Kept script t := by
  cases a with
  | put i =>
    simp only [step] at ha
    split at ha
    case h_1 => cases ha
    case h_2 m ms htodo =>
      obtain rfl := Option.some.inj ha
      intro j
      have hj := h j
      by_cases hij : i = j
      · subst hij
        rw [htodo] at hj
        simpa using hj
      · show sent j (s.taken ++ (s.queue ++ [(i, m)])) ++ Function.update s.todo i ms j = script j
        rw [Function.update_of_ne (Ne.symm hij), ← List.append_assoc, sent_append, sent_ne hij, sent_nil,
          List.append_nil]
        exact hj
  | take =>
    simp only [step] at ha
    split at ha
    case h_1 => cases ha
    case h_2 m queue hqueue =>
      obtain rfl := Option.some.inj ha
      intro j
      have hj := h j
      rw [hqueue] at hj
      rw [List.append_assoc]
      exact hj

/-! ## Counting the markers -/

variable {xs : ι → List α} {ends : ι → Bool} {s : State ι α}

theorem mark_le (h : Kept (fun i => puts (xs i) (ends i)) s) (i : ι) :
    (sent i s.taken).countP Option.isNone ≤ if ends i then 1 else 0 := by
  have hi := congrArg (List.countP Option.isNone) (h i)
  rw [sent_append, List.append_assoc, List.countP_append, count_puts] at hi
  exact hi ▸ Nat.le_add_right _ _

variable [Fintype ι]

/-- The consumer has a marker of every producer only when it has taken all that each puts. -/
theorem all_end (h : Kept (fun i => puts (xs i) (ends i)) s) (hm : marks s.taken = Fintype.card ι) (i : ι) :
    ends i = true ∧ sent i s.taken = puts (xs i) (ends i) := by
  have hle (j : ι) : (sent j s.taken).countP Option.isNone ≤ 1 := by
    refine Nat.le_trans (mark_le h j) ?_
    split <;> decide
  have hsum : ∑ j, (sent j s.taken).countP Option.isNone = ∑ _j : ι, 1 := by
    rw [← marks_eq_sum, hm, ← Finset.card_univ, Finset.card_eq_sum_ones]
  have hone := (Finset.sum_eq_sum_iff_of_le fun j _ => hle j).mp hsum i (Finset.mem_univ i)
  have hi := h i
  rw [sent_append, List.append_assoc] at hi
  exact whole_of_mark hi hone

/-- With a marker of every producer the consumer has its items, all and in order. -/
theorem received (h : Kept (fun i => puts (xs i) (ends i)) s) (hm : marks s.taken = Fintype.card ι) (i : ι) :
    ((items s.taken).filter fun m => m.1 = i).map (·.2) = xs i := by
  rw [items_sent, (all_end h hm i).2, items_puts]

/-- When nothing is on the way any more, the consumer has the marker of every producer that did not break off. -/
theorem marks_idle (h : Kept (fun i => puts (xs i) (ends i)) s) (htodo : ∀ i, s.todo i = []) (hqueue : s.queue = [])
    (hends : ∀ i, ends i = true) : marks s.taken = Fintype.card ι := by
  have hone (i : ι) : (sent i s.taken).countP Option.isNone = 1 := by
    have hi := h i
    rw [hqueue, htodo i, List.append_nil, List.append_nil] at hi
    rw [hi, count_puts, if_pos (hends i)]
  rw [marks_eq_sum, Finset.sum_congr rfl fun i _ => hone i, ← Finset.card_univ, Finset.card_eq_sum_ones]

end Connect.Await.Funnel
