/-
  Connect.Web.LogStream — the activity log of a session and one open `/api/logs/stream`
  (main.py, services/user_state.py).

  The generator keeps an index into a list that `log` appends to and trims to its last 500
  entries, and that `clear_logs` empties. A tick sends a copy of what is behind the index,
  one entry at a yield, and takes the length of the list as it is then for its new index.

  What is sent is in order, and nothing is sent twice, in every run (`ordered_run`). But
  an entry that is logged while the generator is suspended at a yield is skipped by the new
  index, and a trim or a clear during the sleep moves entries below the index, where no
  tick looks. Without these nothing is dropped, and each of them can be followed by a tick
  that drops an entry (`allKeep_iff_delivered`).

  An entry carries the number of `log` calls before it, which the code does not have. A
  generator at its first tick has index 0, so its start is the empty session.
-/

import Connect.Py

namespace Connect.LogStream

/-! ## The session -/

structure Entry where
  seq : Nat
  text : String
  deriving DecidableEq, Repr

/-- `next` numbers the entries. -/
structure UserSession where
  logs : List Entry
  next : Nat
  deriving DecidableEq, Repr

def maxLogs : Nat := 500

def UserSession.entry (st : UserSession) (timestamp message : String) : Entry :=
  ⟨st.next, s!"[{timestamp}] {message}"⟩

def UserSession.log (st : UserSession) (timestamp message : String) : UserSession :=
  let logs := st.logs ++ [st.entry timestamp message]
  { logs := if logs.length > maxLogs then logs.drop (logs.length - maxLogs) else logs
    next := st.next + 1 }

def UserSession.clearLogs (st : UserSession) : UserSession := { st with logs := [] }

/-! ## The generator -/

/-- Where `event_generator` is suspended: at the sleep, at a yield with `rest` left of the
    slice, or past its end. -/
inductive Gen where
  | asleep (lastIndex : Nat)
  | sending (lastIndex : Nat) (rest : List Entry)
  | ended
  deriving DecidableEq, Repr

def Gen.pending : Gen → List Entry
  | .sending _ rest => rest
  | .asleep _ | .ended => []

/-- `owed` collects the entries that were in the buffer at the start of a tick and not
    sent before. -/
structure World where
  st : UserSession
  gen : Gen
  sent : List Entry
  owed : List Entry
  deriving DecidableEq, Repr

inductive Event where
  | log (timestamp message : String)
  | clearLogs
  /-- The sleep is over. -/
  | wake (isDisconnected : Bool)
  /-- The response takes one more. -/
  | resume
  deriving DecidableEq, Repr

/-- A tick up to its first suspension. -/
def tick (w : World) (lastIndex : Nat) : World :=
  let w := { w with owed := w.owed ++ w.st.logs.filter (· ∉ w.sent) }
  if w.st.logs.length > lastIndex then
    match w.st.logs.drop lastIndex with
    | [] => { w with gen := .asleep w.st.logs.length }
    | e :: rest => { w with gen := .sending lastIndex rest, sent := w.sent ++ [e] }
  else { w with gen := .asleep lastIndex }

def step (w : World) : Event → World
  | .log timestamp message => { w with st := w.st.log timestamp message }
  | .clearLogs => { w with st := w.st.clearLogs }
  | .wake isDisconnected =>
    match w.gen with
    | .asleep lastIndex => if isDisconnected then { w with gen := .ended } else tick w lastIndex
    | _ => w
  | .resume =>
    match w.gen with
    | .sending lastIndex (e :: rest) => { w with gen := .sending lastIndex rest, sent := w.sent ++ [e] }
    | .sending _ [] => { w with gen := .asleep w.st.logs.length }
    | _ => w

def start : World := ⟨⟨[], 0⟩, .asleep 0, [], []⟩

def run (w : World) (es : List Event) : World := es.foldl step w

/-! ## The statement -/

/-- Entries go out in the order they were logged in, each at most once. -/
def Ordered (sent : List Entry) : Prop := (sent.map (·.seq)).Pairwise (· < ·)

/-- And what was in the buffer at the start of a tick is sent, or left of that tick's slice. -/
def Delivered (w : World) : Prop := Ordered w.sent ∧ ∀ e ∈ w.owed, e ∈ w.sent ∨ e ∈ w.gen.pending

/-- Nothing is logged while the generator is at a yield, and while it sleeps behind entries
    it has read the buffer is neither trimmed nor cleared. -/
def Keeps (w : World) : Event → Prop
  | .log _ _ =>
    match w.gen with
    | .asleep lastIndex => w.st.logs.length < maxLogs ∨ lastIndex = 0
    | .sending _ _ => False
    | .ended => True
  | .clearLogs =>
    match w.gen with
    | .asleep lastIndex => lastIndex = 0
    | .sending _ _ | .ended => True
  | .wake _ | .resume => True

/-- Each step of a run keeps what the generator has not read in its reach. -/
def AllKeep (w : World) : List Event → Prop
  | [] => True
  | e :: es => Keeps w e ∧ AllKeep (step w e) es

/-! ## The buffer is numbered -/

/-- The entries are the last ones logged. -/
structure UserSession.Numbered (st : UserSession) : Prop where
  seq {k : Nat} {e : Entry} : st.logs[k]? = some e → e.seq + st.logs.length = st.next + k
  le : st.logs.length ≤ st.next
  small : st.logs.length ≤ maxLogs

theorem numbered_clear {st : UserSession} : st.clearLogs.Numbered where
  seq := by simp [UserSession.clearLogs]
  le := Nat.zero_le _
  small := Nat.zero_le _

/-- A `log` appends, and drops the first entry of a full buffer. -/
theorem log_logs {st : UserSession} (h : st.Numbered) (timestamp message : String) :
    ∃ d, (st.log timestamp message).logs = (st.logs ++ [st.entry timestamp message]).drop d ∧
      (d = 0 ∧ st.logs.length < maxLogs ∨ d = 1 ∧ st.logs.length = maxLogs) := by
  have hs := h.small
  by_cases hlt : st.logs.length < maxLogs
  · have hle : ¬ st.logs.length + 1 > maxLogs := by omega
    exact ⟨0, by simp [UserSession.log, hle], Or.inl ⟨rfl, hlt⟩⟩
  · have hgt : st.logs.length + 1 > maxLogs := by omega
    have hone : st.logs.length + 1 - maxLogs = 1 := by omega
    exact ⟨1, by simp [UserSession.log, hgt, hone], Or.inr ⟨rfl, by omega⟩⟩

theorem numbered_log {st : UserSession} (h : st.Numbered) (timestamp message : String) :
    (st.log timestamp message).Numbered := by
  have hle := h.le
  obtain ⟨d, hl, hd⟩ := log_logs h timestamp message
  have hlen : (st.log timestamp message).logs.length = st.logs.length + 1 - d := by simp [hl]
  have hnext : (st.log timestamp message).next = st.next + 1 := rfl
  have hcap : 0 < maxLogs := by decide
  constructor
  · intro k e he
    rw [hl, List.getElem?_drop] at he
    have hk : d + k ≤ st.logs.length := by
      have := (List.getElem?_eq_some_iff.mp he).1
      simp at this
      omega
    by_cases heq : d + k = st.logs.length
    · obtain rfl : st.entry timestamp message = e := by simpa [heq] using he
      have hseq : (st.entry timestamp message).seq = st.next := rfl
      omega
    · rw [List.getElem?_append_left (by omega)] at he
      have := h.seq he
      omega
  · omega
  · omega

/-! ## What a step does -/

def owing (w : World) : World := { w with owed := w.owed ++ w.st.logs.filter (· ∉ w.sent) }

@[simp] theorem owing_st (w : World) : (owing w).st = w.st := rfl
@[simp] theorem owing_sent (w : World) : (owing w).sent = w.sent := rfl
@[simp] theorem owing_owed (w : World) : (owing w).owed = w.owed ++ w.st.logs.filter (· ∉ w.sent) := rfl

/-- A tick sends the first entry behind the index and keeps the rest, or finds none. -/
theorem tick_cases (w : World) (i : Nat) :
    (∃ (e : Entry) (rest : List Entry), w.st.logs.drop i = e :: rest ∧
      tick w i = { owing w with gen := .sending i rest, sent := w.sent ++ [e] }) ∨
    (w.st.logs.length ≤ i ∧ tick w i = { owing w with gen := .asleep i }) := by
  by_cases hlen : w.st.logs.length > i
  · cases hd : w.st.logs.drop i with
    | nil =>
      have := List.drop_eq_nil_iff.mp hd
      omega
    | cons e rest => exact Or.inl ⟨e, rest, rfl, by simp [tick, owing, hlen, hd]⟩
  · exact Or.inr ⟨by omega, by simp [tick, owing, hlen]⟩

theorem wake_cases (w : World) (d : Bool) :
    step w (.wake d) = w ∨
    (∃ i, w.gen = .asleep i ∧ step w (.wake d) = { w with gen := .ended }) ∨
    (∃ i, w.gen = .asleep i ∧ step w (.wake d) = tick w i) := by
  cases hg : w.gen with
  | asleep i =>
    cases d with
    | true => exact Or.inr (Or.inl ⟨i, rfl, by simp [step, hg]⟩)
    | false => exact Or.inr (Or.inr ⟨i, rfl, by simp [step, hg]⟩)
  | sending i rest => exact Or.inl (by simp [step, hg])
  | ended => exact Or.inl (by simp [step, hg])

theorem resume_cases (w : World) :
    step w .resume = w ∨
    (∃ (i : Nat) (e : Entry) (rest : List Entry), w.gen = .sending i (e :: rest) ∧
      step w .resume = { w with gen := .sending i rest, sent := w.sent ++ [e] }) ∨
    (∃ i, w.gen = .sending i [] ∧ step w .resume = { w with gen := .asleep w.st.logs.length }) := by
  cases hg : w.gen with
  | asleep i => exact Or.inl (by simp [step, hg])
  | ended => exact Or.inl (by simp [step, hg])
  | sending i rest =>
    cases rest with
    | nil => exact Or.inr (Or.inr ⟨i, rfl, by simp [step, hg]⟩)
    | cons e rest => exact Or.inr (Or.inl ⟨i, e, rest, rfl, by simp [step, hg]⟩)

theorem numbered_step {w : World} (h : w.st.Numbered) (e : Event) : (step w e).st.Numbered := by
  cases e with
  | log timestamp message => exact numbered_log h timestamp message
  | clearLogs => exact numbered_clear
  | wake d =>
    rcases wake_cases w d with hs | ⟨i, -, hs⟩ | ⟨i, -, hs⟩
    · rwa [hs]
    · rwa [hs]
    · rw [hs]
      rcases tick_cases w i with ⟨e, rest, -, ht⟩ | ⟨-, ht⟩ <;> rwa [ht]
  | resume =>
    rcases resume_cases w with hs | ⟨i, e, rest, -, hs⟩ | ⟨i, -, hs⟩ <;> rwa [hs]

/-! ## In order, and never twice -/

/-- Where the generator is among the numbers: everything it has sent or is about to send is
    below what the next slice can hold. -/
structure InOrder (w : World) : Prop where
  ordered : Ordered (w.sent ++ w.gen.pending)
  logged : ∀ e ∈ w.sent ++ w.gen.pending, e.seq < w.st.next
  behind : ∀ i, w.gen = .asleep i → ∀ e ∈ w.sent, e.seq + w.st.logs.length < w.st.next + i

/-- A slice of the buffer is in order. -/
theorem ordered_drop {st : UserSession} (h : st.Numbered) (i : Nat) : Ordered (st.logs.drop i) := by
  rw [Ordered, List.pairwise_map, List.pairwise_iff_getElem]
  intro a b ha hb hab
  rw [List.length_drop] at ha hb
  have hx := h.seq (k := i + a) (List.getElem?_eq_getElem (by omega))
  have hy := h.seq (k := i + b) (List.getElem?_eq_getElem (by omega))
  rw [List.getElem_drop, List.getElem_drop]
  omega

theorem seq_of_mem_drop {st : UserSession} (h : st.Numbered) {i : Nat} {e : Entry} (he : e ∈ st.logs.drop i) :
    st.next + i ≤ e.seq + st.logs.length ∧ e.seq < st.next := by
  obtain ⟨k, hk⟩ := List.getElem?_of_mem he
  rw [List.getElem?_drop] at hk
  have hlt := (List.getElem?_eq_some_iff.mp hk).1
  have := h.seq hk
  omega

theorem ordered_append {xs ys : List Entry} (hx : Ordered xs) (hy : Ordered ys)
    (h : ∀ x ∈ xs, ∀ y ∈ ys, x.seq < y.seq) : Ordered (xs ++ ys) := by
  rw [Ordered, List.map_append, List.pairwise_append]
  refine ⟨hx, hy, fun a ha b hb => ?_⟩
  obtain ⟨x, hx, rfl⟩ := List.mem_map.mp ha
  obtain ⟨y, hy, rfl⟩ := List.mem_map.mp hb
  exact h x hx y hy

theorem inOrder_start : InOrder start where
  ordered := List.Pairwise.nil
  logged := by simp [start, Gen.pending]
  behind := by simp [start]

/-- `log` and `clear` leave the generator alone, and the index is no nearer the end. -/
theorem inOrder_session {w : World} (h : InOrder w) {st : UserSession} (hnext : w.st.next ≤ st.next)
    (hlen : w.st.next + st.logs.length ≤ st.next + w.st.logs.length) : InOrder { w with st := st } where
  ordered := h.ordered
  logged := fun e he => Nat.lt_of_lt_of_le (h.logged e he) hnext
  behind := fun i hi e he => by
    have := h.behind i hi e he
    show e.seq + st.logs.length < st.next + i
    omega

theorem inOrder_tick {w : World} (hn : w.st.Numbered) (h : InOrder w) {i : Nat} (hg : w.gen = .asleep i) :
    InOrder (tick w i) := by
  have hb := h.behind i hg
  have ho : Ordered w.sent := by simpa [hg, Gen.pending] using h.ordered
  have hl : ∀ e ∈ w.sent, e.seq < w.st.next := fun e he => h.logged e (List.mem_append_left _ he)
  rcases tick_cases w i with ⟨e, rest, hd, ht⟩ | ⟨hle, ht⟩
  · -- the slice is behind everything sent
    have happ : (w.sent ++ [e]) ++ rest = w.sent ++ w.st.logs.drop i := by rw [hd, List.append_assoc]; rfl
    rw [ht]
    refine ⟨?_, ?_, fun j hj => by cases hj⟩
    · show Ordered ((w.sent ++ [e]) ++ rest)
      rw [happ]
      refine ordered_append ho (ordered_drop hn i) fun x hx y hy => ?_
      have := hb x hx
      have := seq_of_mem_drop hn hy
      omega
    · show ∀ x ∈ (w.sent ++ [e]) ++ rest, x.seq < w.st.next
      rw [happ]
      intro x hx
      rcases List.mem_append.mp hx with hx | hx
      · exact hl x hx
      · exact (seq_of_mem_drop hn hx).2
  · rw [ht]
    refine ⟨by simpa [Gen.pending] using ho, by simpa [Gen.pending] using hl, fun j hj => ?_⟩
    obtain rfl : i = j := by simpa using hj
    exact hb

theorem inOrder_step {w : World} (hn : w.st.Numbered) (h : InOrder w) (e : Event) : InOrder (step w e) := by
  cases e with
  | log timestamp message =>
    obtain ⟨d, hl, hd⟩ := log_logs hn timestamp message
    have hlen : (w.st.log timestamp message).logs.length = w.st.logs.length + 1 - d := by simp [hl]
    have hnext : (w.st.log timestamp message).next = w.st.next + 1 := rfl
    exact inOrder_session h (by omega) (by omega)
  | clearLogs =>
    have hlen : w.st.clearLogs.logs.length = 0 := rfl
    have hnext : w.st.clearLogs.next = w.st.next := rfl
    exact inOrder_session h (by omega) (by omega)
  | wake d =>
    rcases wake_cases w d with hs | ⟨i, hg, hs⟩ | ⟨i, hg, hs⟩
    · rwa [hs]
    · rw [hs]
      refine ⟨?_, ?_, fun j hj => by cases hj⟩
      · simpa [hg, Gen.pending] using h.ordered
      · simpa [hg, Gen.pending] using h.logged
    · rw [hs]
      exact inOrder_tick hn h hg
  | resume =>
    rcases resume_cases w with hs | ⟨i, e, rest, hg, hs⟩ | ⟨i, hg, hs⟩
    · rwa [hs]
    · rw [hs]
      have happ : (w.sent ++ [e]) ++ rest = w.sent ++ w.gen.pending := by simp [hg, Gen.pending]
      refine ⟨?_, ?_, fun j hj => by cases hj⟩
      · show Ordered ((w.sent ++ [e]) ++ rest)
        exact happ ▸ h.ordered
      · show ∀ x ∈ (w.sent ++ [e]) ++ rest, x.seq < w.st.next
        exact happ ▸ h.logged
    · rw [hs]
      have hl : ∀ e ∈ w.sent, e.seq < w.st.next := fun e he => h.logged e (List.mem_append_left _ he)
      refine ⟨?_, by simpa [Gen.pending] using hl, fun j hj e he => ?_⟩
      · simpa [hg, Gen.pending] using h.ordered
      · obtain rfl : w.st.logs.length = j := by simpa using hj
        have := hl e he
        show e.seq + w.st.logs.length < w.st.next + w.st.logs.length
        omega

theorem ordered_of_inOrder {w : World} (h : InOrder w) : Ordered w.sent :=
  List.Pairwise.sublist ((List.sublist_append_left w.sent w.gen.pending).map _) h.ordered

/-- What every run keeps. -/
structure Inv (w : World) : Prop where
  numbered : w.st.Numbered
  inOrder : InOrder w

theorem inv_start : Inv start := ⟨⟨by simp [start], Nat.zero_le _, Nat.zero_le _⟩, inOrder_start⟩

theorem inv_step {w : World} (h : Inv w) (e : Event) : Inv (step w e) :=
  ⟨numbered_step h.numbered e, inOrder_step h.numbered h.inOrder e⟩

theorem inv_run {w : World} (h : Inv w) (es : List Event) : Inv (run w es) := by
  induction es generalizing w with
  | nil => exact h
  | cons e es ih => exact ih (inv_step h e)

/-- Whatever happens, what is sent is in order, and nothing is sent twice. -/
theorem ordered_run (es : List Event) : Ordered (run start es).sent :=
  ordered_of_inOrder (inv_run inv_start es).inOrder

/-! ## Nothing is dropped -/

/-- While nothing has left the generator's reach: all that is below its index has been sent,
    and at a yield all that is in the buffer has been sent or is left of the slice. -/
structure Kept (w : World) : Prop where
  owed : ∀ e ∈ w.owed, e ∈ w.sent ∨ e ∈ w.gen.pending
  below : ∀ i, w.gen = .asleep i → i ≤ w.st.logs.length ∧ ∀ e ∈ w.st.logs.take i, e ∈ w.sent
  slice : ∀ i rest, w.gen = .sending i rest → ∀ e ∈ w.st.logs, e ∈ w.sent ∨ e ∈ rest

theorem kept_start : Kept start where
  owed := by simp [start]
  below := by simp [start]
  slice := by simp [start]

theorem kept_log {w : World} (hn : w.st.Numbered) (h : Kept w) {timestamp message : String}
    (hk : Keeps w (.log timestamp message)) : Kept (step w (.log timestamp message)) := by
  cases hg : w.gen with
  | ended => exact ⟨h.owed, fun i hi => by simp [step, hg] at hi, fun i rest hi => by simp [step, hg] at hi⟩
  | sending i rest => simp [Keeps, hg] at hk
  | asleep i =>
    obtain ⟨hle, htake⟩ := h.below i hg
    refine ⟨h.owed, fun j hj => ?_, fun j rest hj => by simp [step, hg] at hj⟩
    obtain rfl : i = j := by simpa [step, hg] using hj
    obtain ⟨d, hl, hd⟩ := log_logs hn timestamp message
    have hlogs : (step w (.log timestamp message)).st.logs = (w.st.logs ++ [w.st.entry timestamp message]).drop d :=
      hl
    rw [hlogs]
    have hcases : w.st.logs.length < maxLogs ∨ i = 0 := by simpa [Keeps, hg] using hk
    rcases Nat.eq_zero_or_pos i with h0 | hpos
    · exact ⟨by omega, by simp [h0]⟩
    · have hzero : d = 0 := by omega
      rw [hzero, List.drop_zero, List.take_append_of_le_length hle]
      exact ⟨by simp; omega, htake⟩

theorem kept_clear {w : World} (h : Kept w) (hk : Keeps w .clearLogs) : Kept (step w .clearLogs) := by
  refine ⟨h.owed, fun i hi => ?_, fun i rest hi e he => by simp [step, UserSession.clearLogs] at he⟩
  have hg : w.gen = .asleep i := hi
  have h0 : i = 0 := by simpa [Keeps, hg] using hk
  exact ⟨by omega, by simp [h0]⟩

theorem kept_tick {w : World} (h : Kept w) {i : Nat} (hg : w.gen = .asleep i) : Kept (tick w i) := by
  obtain ⟨hle, htake⟩ := h.below i hg
  have howed : ∀ e ∈ w.owed, e ∈ w.sent := by simpa [hg, Gen.pending] using h.owed
  have hall : ∀ e ∈ w.st.logs, e ∈ w.sent ∨ e ∈ w.st.logs.drop i := by
    intro e he
    rw [← List.take_append_drop i w.st.logs] at he
    exact (List.mem_append.mp he).imp (htake e) id
  have hfirst : ∀ e ∈ (owing w).owed, e ∈ w.sent ∨ e ∈ w.st.logs.drop i := by
    intro e he
    rcases List.mem_append.mp he with he | he
    · exact Or.inl (howed e he)
    · exact hall e (List.mem_filter.mp he).1
  rcases tick_cases w i with ⟨x, rest, hd, ht⟩ | ⟨hlen, ht⟩
  · have hsplit {e : Entry} (he : e ∈ w.sent ∨ e ∈ w.st.logs.drop i) : e ∈ w.sent ++ [x] ∨ e ∈ rest := by
      rw [hd] at he
      simp only [List.mem_cons, List.mem_append, List.not_mem_nil, or_false] at he ⊢
      rcases he with he | he | he
      · exact Or.inl (Or.inl he)
      · exact Or.inl (Or.inr he)
      · exact Or.inr he
    rw [ht]
    refine ⟨fun e he => hsplit (hfirst e he), fun j hj => by simp at hj, fun j r hj e he => ?_⟩
    obtain ⟨-, rfl⟩ : i = j ∧ rest = r := by simpa using hj
    exact hsplit (hall e he)
  · have hnone : w.st.logs.drop i = [] := List.drop_eq_nil_of_le hlen
    rw [ht]
    refine ⟨fun e he => ?_, fun j hj => ?_, fun j r hj => by simp at hj⟩
    · simpa [hnone, Gen.pending] using hfirst e he
    · obtain rfl : i = j := by simpa using hj
      exact ⟨hle, htake⟩

theorem kept_resume {w : World} (h : Kept w) : Kept (step w .resume) := by
  rcases resume_cases w with hs | ⟨i, x, rest, hg, hs⟩ | ⟨i, hg, hs⟩
  · rwa [hs]
  · have hsplit {e : Entry} (he : e ∈ w.sent ∨ e ∈ x :: rest) : e ∈ w.sent ++ [x] ∨ e ∈ rest := by
      simp only [List.mem_cons, List.mem_append, List.not_mem_nil, or_false] at he ⊢
      rcases he with he | he | he
      · exact Or.inl (Or.inl he)
      · exact Or.inl (Or.inr he)
      · exact Or.inr he
    rw [hs]
    refine ⟨fun e he => hsplit ?_, fun j hj => by simp at hj, fun j r hj e he => ?_⟩
    · simpa [hg, Gen.pending] using h.owed e he
    · obtain ⟨-, rfl⟩ : i = j ∧ rest = r := by simpa using hj
      exact hsplit (h.slice i (x :: rest) hg e he)
  · have hall : ∀ e ∈ w.st.logs, e ∈ w.sent := by simpa using h.slice i [] hg
    rw [hs]
    refine ⟨fun e he => ?_, fun j hj => ?_, fun j r hj => by simp at hj⟩
    · simpa [hg, Gen.pending] using h.owed e he
    · obtain rfl : w.st.logs.length = j := by simpa using hj
      exact ⟨Nat.le_refl _, fun e he => hall e (List.mem_of_mem_take he)⟩

theorem kept_step {w : World} (hn : w.st.Numbered) (h : Kept w) {e : Event} (hk : Keeps w e) : Kept (step w e) := by
  cases e with
  | log timestamp message => exact kept_log hn h hk
  | clearLogs => exact kept_clear h hk
  | wake d =>
    rcases wake_cases w d with hs | ⟨i, hg, hs⟩ | ⟨i, hg, hs⟩
    · rwa [hs]
    · rw [hs]
      exact ⟨by simpa [hg, Gen.pending] using h.owed, fun j hj => by simp at hj, fun j r hj => by simp at hj⟩
    · rw [hs]
      exact kept_tick h hg
  | resume => exact kept_resume h

theorem kept_run {w : World} (hi : Inv w) (h : Kept w) {es : List Event} (hk : AllKeep w es) : Kept (run w es) := by
  induction es generalizing w with
  | nil => exact h
  | cons e es ih => exact ih (inv_step hi e) (kept_step hi.numbered h hk.1) hk.2

theorem delivered_of_kept {w : World} (hi : Inv w) (h : Kept w) : Delivered w :=
  ⟨ordered_of_inOrder hi.inOrder, h.owed⟩

/-! ## What drops an entry -/

/-- An entry is in the buffer when the generator wakes, not sent and below its index: it is
    owed, and the tick does not take it. -/
theorem dropped_of_below {w : World} (hi : Inv w) {i : Nat} (hg : w.gen = .asleep i) {e : Entry}
    (he : e ∈ w.st.logs) (hseq : e.seq + w.st.logs.length < w.st.next + i) (hnew : e ∉ w.sent) :
    ¬ Delivered (step w (.wake false)) := by
  have hs : step w (.wake false) = tick w i := by simp [step, hg]
  have howed : e ∈ (owing w).owed := List.mem_append_right _ (List.mem_filter.mpr ⟨he, by simpa using hnew⟩)
  have hdrop : e ∉ w.st.logs.drop i := fun hm => by
    have := seq_of_mem_drop hi.numbered hm
    omega
  rw [hs]
  intro hd
  rcases tick_cases w i with ⟨x, rest, hx, ht⟩ | ⟨-, ht⟩
  · rw [ht] at hd
    rw [hx] at hdrop
    rcases hd.2 e howed with hm | hm
    · have hm : e ∈ w.sent ++ [x] := hm
      simp only [List.mem_append, List.mem_cons, List.not_mem_nil, or_false] at hm
      exact hm.elim hnew fun h => hdrop (h ▸ List.mem_cons_self)
    · exact hdrop (List.mem_cons_of_mem _ hm)
  · rw [ht] at hd
    rcases hd.2 e howed with hm | hm
    · exact hnew hm
    · simp [Gen.pending] at hm

/-- The response takes what is left of the slice, and the generator goes to sleep. -/
theorem run_drain {w : World} {i : Nat} {rest : List Entry} (hg : w.gen = .sending i rest) :
    run w (List.replicate (rest.length + 1) .resume) =
      { w with gen := .asleep w.st.logs.length, sent := w.sent ++ rest } := by
  induction rest generalizing w with
  | nil => simp [run, step, hg]
  | cons e rest ih =>
    have hs : step w .resume = { w with gen := .sending i rest, sent := w.sent ++ [e] } := by simp [step, hg]
    have := ih (w := step w .resume) (by rw [hs])
    rw [List.length_cons, List.replicate_succ]
    show run (step w .resume) _ = _
    rw [this, hs, List.append_assoc]
    rfl

theorem allKeep_append {w : World} {es later : List Event} :
    AllKeep w (es ++ later) ↔ AllKeep w es ∧ AllKeep (run w es) later := by
  induction es generalizing w with
  | nil => simp [AllKeep, run]
  | cons e es ih =>
    have hrun : run w (e :: es) = run (step w e) es := rfl
    simp only [List.cons_append, AllKeep, ih, hrun, and_assoc]

theorem allKeep_resumes (w : World) (n : Nat) : AllKeep w (List.replicate n .resume) := by
  induction n generalizing w with
  | zero => trivial
  | succ n ih => exact ⟨trivial, ih _⟩

theorem run_append (w : World) (es later : List Event) : run w (es ++ later) = run (run w es) later :=
  List.foldl_append

theorem entry_mem_log {st : UserSession} (h : st.Numbered) (timestamp message : String) :
    st.entry timestamp message ∈ (st.log timestamp message).logs := by
  obtain ⟨d, hl, hd⟩ := log_logs h timestamp message
  have hcap : 0 < maxLogs := by decide
  have hlen : d ≤ st.logs.length := by omega
  rw [hl, List.drop_append_of_le_length hlen]
  exact List.mem_append_right _ (List.mem_singleton.mpr rfl)

theorem not_mem_of_next {xs : List Entry} {n : Nat} (h : ∀ e ∈ xs, e.seq < n) {e : Entry} (he : n ≤ e.seq) : e ∉ xs :=
  fun hm => Nat.not_lt.mpr he (h e hm)

theorem sent_logged {w : World} (hi : Inv w) : ∀ e ∈ w.sent, e.seq < w.st.next :=
  fun e he => hi.inOrder.logged e (List.mem_append_left _ he)

/-- After a clear the next entry is the first of the buffer, and the index is past it. -/
theorem dropped_of_clear {w : World} (hi : Inv w) {i : Nat} (hg : w.gen = .asleep i) (hpos : 0 < i) :
    ∃ later, AllKeep (step w .clearLogs) later ∧ ¬ Delivered (run (step w .clearLogs) later) := by
  have hi' := inv_step hi .clearLogs
  have hstep : step (step w .clearLogs) (.log "" "") = { w with st := w.st.clearLogs.log "" "" } := rfl
  have hmem := @entry_mem_log w.st.clearLogs numbered_clear "" ""
  have hlen : (w.st.clearLogs.log "" "").logs.length = 1 := rfl
  have hkeeps : Keeps (step w .clearLogs) (.log "" "") := by
    simp [Keeps, step, hg, UserSession.clearLogs, maxLogs]
  refine ⟨[.log "" "", .wake false], ⟨hkeeps, trivial, trivial⟩, ?_⟩
  show ¬ Delivered (step (step (step w .clearLogs) (.log "" "")) (.wake false))
  refine dropped_of_below (inv_step hi' _) (i := i) hg hmem ?_ (not_mem_of_next (sent_logged hi) (Nat.le_refl _))
  rw [hstep]
  show w.st.next + (w.st.clearLogs.log "" "").logs.length < w.st.next + 1 + i
  omega

/-- At a yield the slice was cut before the entry came, and the new index is behind it. -/
theorem dropped_at_yield {w : World} (hi : Inv w) {i : Nat} {rest : List Entry} (hg : w.gen = .sending i rest)
    (timestamp message : String) :
    ∃ later, AllKeep (step w (.log timestamp message)) later ∧
    ¬ Delivered (run (step w (.log timestamp message)) later) := by
  have hi' := inv_step hi (.log timestamp message)
  have hmem := entry_mem_log hi.numbered timestamp message
  have hnext : (w.st.log timestamp message).next = w.st.next + 1 := rfl
  have hdrain := @run_drain (step w (.log timestamp message)) i rest hg
  have hall : ∀ x ∈ w.sent ++ rest, x.seq < w.st.next := by simpa [hg, Gen.pending] using hi.inOrder.logged
  refine ⟨List.replicate (rest.length + 1) .resume ++ [.wake false], ?_, ?_⟩
  · exact allKeep_append.mpr ⟨allKeep_resumes _ _, trivial, trivial⟩
  · rw [run_append]
    have hinv := inv_run hi' (List.replicate (rest.length + 1) .resume)
    rw [hdrain] at hinv ⊢
    refine dropped_of_below hinv rfl hmem ?_ (not_mem_of_next hall (Nat.le_refl _))
    show w.st.next + (w.st.log timestamp message).logs.length <
      (w.st.log timestamp message).next + (w.st.log timestamp message).logs.length
    omega

/-- A trim moves the first entry that is not read, or the one just logged, to where the
    index has been. -/
theorem dropped_of_trim {w : World} (hi : Inv w) {i : Nat} (hg : w.gen = .asleep i)
    (hfull : ¬ (w.st.logs.length < maxLogs ∨ i = 0)) (timestamp message : String) :
    ∃ later, AllKeep (step w (.log timestamp message)) later ∧
    ¬ Delivered (run (step w (.log timestamp message)) later) := by
  have hi' := inv_step hi (.log timestamp message)
  have hnext : (w.st.log timestamp message).next = w.st.next + 1 := rfl
  obtain ⟨d, hl, hd⟩ := log_logs hi.numbered timestamp message
  have hone : d = 1 := by omega
  have hlen : (w.st.log timestamp message).logs.length = w.st.logs.length := by simp [hl, hone]
  have hbehind := hi.inOrder.behind i hg
  refine ⟨[.wake false], ⟨trivial, trivial⟩, ?_⟩
  show ¬ Delivered (step (step w (.log timestamp message)) (.wake false))
  by_cases hlt : i < w.st.logs.length
  · have hseq := hi.numbered.seq (List.getElem?_eq_getElem hlt)
    have hin : w.st.logs[i] ∈ (w.st.log timestamp message).logs := by
      rw [hl, hone]
      refine List.mem_of_getElem? (i := i - 1) ?_
      rw [List.getElem?_drop, show 1 + (i - 1) = i by omega, List.getElem?_append_left hlt]
      exact List.getElem?_eq_getElem hlt
    refine dropped_of_below hi' hg hin ?_ fun hm => ?_
    · show w.st.logs[i].seq + (w.st.log timestamp message).logs.length < (w.st.log timestamp message).next + i
      omega
    · have := hbehind _ hm
      omega
  · refine dropped_of_below hi' hg (entry_mem_log hi.numbered timestamp message) ?_
      (not_mem_of_next (sent_logged hi) (Nat.le_refl _))
    show w.st.next + (w.st.log timestamp message).logs.length < (w.st.log timestamp message).next + i
    omega

/-- Every step that does not keep to it can be followed by steps that do, to a tick that
    drops an entry. -/
theorem dropped_of_not_keeps {w : World} (hi : Inv w) {e : Event} (hk : ¬ Keeps w e) :
    ∃ later, AllKeep (step w e) later ∧ ¬ Delivered (run (step w e) later) := by
  cases e with
  | wake d => exact absurd trivial hk
  | resume => exact absurd trivial hk
  | clearLogs =>
    cases hg : w.gen with
    | sending i rest => simp [Keeps, hg] at hk
    | ended => simp [Keeps, hg] at hk
    | asleep i => exact dropped_of_clear hi hg (Nat.pos_of_ne_zero (by simpa [Keeps, hg] using hk))
  | log timestamp message =>
    cases hg : w.gen with
    | ended => simp [Keeps, hg] at hk
    | sending i rest => exact dropped_at_yield hi hg timestamp message
    | asleep i => exact dropped_of_trim hi hg (by simpa [Keeps, hg] using hk) timestamp message

theorem allKeep_prefix {es : List Event} (hk : ¬ AllKeep start es) :
    ∃ (now : List Event) (e : Event), now ++ [e] <+: es ∧ AllKeep start now ∧ ¬ Keeps (run start now) e := by
  suffices h : ∀ (w : World) (es : List Event), ¬ AllKeep w es →
      ∃ (now : List Event) (e : Event), now ++ [e] <+: es ∧ AllKeep w now ∧ ¬ Keeps (run w now) e from h start es hk
  intro w es
  induction es generalizing w with
  | nil => exact fun h => absurd trivial h
  | cons e es ih =>
    intro h
    by_cases he : Keeps w e
    · obtain ⟨now, e', hpre, hnow, hnot⟩ := ih (step w e) fun hes => h ⟨he, hes⟩
      exact ⟨e :: now, e', by simpa using hpre, ⟨he, hnow⟩, hnot⟩
    · exact ⟨[], e, by simp, trivial, he⟩

/-- A run whose steps keep to the condition delivers in every state it is in. -/
theorem delivered_run {es : List Event} (hk : AllKeep start es) {now : List Event} (h : now <+: es) :
    Delivered (run start now) := by
  obtain ⟨rest, rfl⟩ := h
  exact delivered_of_kept (inv_run inv_start now) (kept_run inv_start kept_start (allKeep_append.mp hk).1)

/-- A run keeps to it if and only if at no point of it an entry can be dropped by steps
    that keep to it. In particular nothing is dropped in a run that does. -/
theorem allKeep_iff_delivered (es : List Event) :
    AllKeep start es ↔ ∀ now later : List Event, now <+: es → AllKeep (run start now) later →
    Delivered (run start (now ++ later)) := by
  constructor
  · intro hk now later h hl
    obtain ⟨rest, rfl⟩ := h
    exact delivered_run (allKeep_append.mpr ⟨(allKeep_append.mp hk).1, hl⟩) List.prefix_rfl
  · intro h
    refine Classical.byContradiction fun hk => ?_
    obtain ⟨now, e, hpre, hnow, hnot⟩ := allKeep_prefix hk
    obtain ⟨later, hl, hd⟩ := dropped_of_not_keeps (inv_run inv_start now) hnot
    have hstep : run start (now ++ [e]) = step (run start now) e := by rw [run_append]; rfl
    refine hd ?_
    have := h (now ++ [e]) later hpre (hstep ▸ hl)
    rwa [run_append, hstep] at this

/-- Two entries are read, and one is logged while the second waits to be taken. -/
theorem logged_at_yield :
    ¬ Delivered (run start [.log "10:00:00" "a", .log "10:00:00" "b", .wake false, .log "10:00:01" "c",
      .resume, .resume, .wake false]) :=
  fun h => absurd (h.2 ⟨2, "[10:00:01] c"⟩ (by decide)) (by decide)

end Connect.LogStream
