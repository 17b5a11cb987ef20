/-
  Connect.Shell.Stream — `run_stream` (bootstrap/connect_bootstrap/shell.py): a subprocess,
  the two `_drain` tasks that read its output, their queue and the generator that empties it.

  The subprocess writes its bytes and closes its streams; they reach the readers in pieces
  of any size. A step is one piece, one end of file, the exit, one turn of a task's loop or
  one turn of the generator, in any order: every interleaving of the real program is one
  of them. The caller asks for the next item until there is none.

  A line over the reader's limit makes `_drain` raise before it puts its end marker. The
  generator looks at the tasks only when it has both markers, so it then waits for ever
  (`waits_for_ever`); when every line is within the limit, every run ends with all lines
  delivered and the exit code behind them (`delivers_iff`).
-/

import Connect.Await.Funnel
import Connect.Shell.StreamReader

namespace Connect.Shell

open Await

inductive Source where
  | stdout
  | stderr
  deriving DecidableEq, Repr

instance : Fintype Source := ⟨{.stdout, .stderr}, fun i => by cases i <;> decide⟩

def Source.label : Source → String
  | .stdout => "stdout"
  | .stderr => "stderr"

inductive Task where
  | running
  | returned
  /-- It ended with a ValueError. -/
  | raised
  deriving DecidableEq, Repr

structure Pipe where
  /-- What has still to reach the reader. -/
  unread : Bytes
  reader : StreamReader
  /-- The `_drain` task of the stream. -/
  task : Task

inductive Consumer where
  | draining (openStreams : Nat)
  /-- At `asyncio.gather(t_out, t_err)`. -/
  | gathering
  /-- At `proc.wait()`. -/
  | waiting
  | ended
  | failed
  deriving DecidableEq, Repr

structure State where
  pipes : Source → Pipe
  exited : Bool
  q : List (Source × Option String)
  consumer : Consumer
  /-- What the generator has yielded. -/
  yielded : List (String × String)

namespace State

def setPipe (s : State) (i : Source) (p : Pipe) : State := { s with pipes := Function.update s.pipes i p }

def put (s : State) (i : Source) (m : Option String) : State := { s with q := s.q ++ [(i, m)] }

/-- One turn of `_drain`: `none` while its `readline` waits. -/
def drain (s : State) (i : Source) : Option State :=
  let p := s.pipes i
  if p.task = .running then
    p.reader.readline.map fun
      | .error reader => s.setPipe i { p with reader, task := .raised }
      | .line line reader =>
        if line = [] then (s.setPipe i { p with reader, task := .returned }).put i none
        else (s.setPipe i { p with reader }).put i (some (rstripNewline (decode line)))
  else none

/-- One turn of the generator of a process that exits with `rc`. -/
def consume (rc : Int) (s : State) : Option State :=
  match s.consumer with
  | .draining 0 => some { s with consumer := .gathering }
  | .draining (openStreams + 1) =>
    match s.q with
    | [] => none
    | (_, none) :: q => some { s with q, consumer := .draining openStreams }
    | (i, some line) :: q => some { s with q, yielded := s.yielded ++ [(i.label, line)] }
  | .gathering =>
    if (s.pipes .stdout).task = .raised ∨ (s.pipes .stderr).task = .raised then some { s with consumer := .failed }
    else if (s.pipes .stdout).task = .returned ∧
      (s.pipes .stderr).task = .returned then some { s with consumer := .waiting }
    else none
  | .waiting =>
    if s.exited then some { s with consumer := .ended, yielded := s.yielded ++ [("exit", toString rc)] } else none
  | .ended => none
  | .failed => none

end State

inductive Action where
  /-- The next bytes of a stream reach its reader. -/
  | feed (i : Source) (n : Nat)
  | close (i : Source)
  /-- What the subprocess wrote may still be on its way. -/
  | exit
  | drain (i : Source)
  | consume
  deriving DecidableEq, Repr

def step (rc : Int) (s : State) : Action → Option State
  | .feed i n =>
    let p := s.pipes i
    if 0 < n ∧ n ≤ p.unread.length ∧ p.reader.paused = false then
      some (s.setPipe i { p with unread := p.unread.drop n, reader := p.reader.feedData (p.unread.take n) })
    else none
  | .close i =>
    let p := s.pipes i
    if p.unread = [] ∧ p.reader.eof = false ∧
      p.reader.paused = false then some (s.setPipe i { p with reader := p.reader.feedEof })
    else none
  | .exit => if s.exited then none else some { s with exited := true }
  | .drain i => s.drain i
  | .consume => s.consume rc

/-- `run_stream` for a subprocess that will write `writes i` to its stream `i`. -/
def start (writes : Source → Bytes) : State := ⟨fun i => ⟨writes i, .empty, .running⟩, false, [], .draining 2, []⟩

/-! ## What a step can do -/

inductive Moved (rc : Int) (s : State) : State → Prop where
  | feed {i : Source} {n : Nat} (pos : 0 < n) (le : n ≤ (s.pipes i).unread.length)
      (going : (s.pipes i).reader.paused = false) :
    Moved rc s (s.setPipe i { s.pipes i with
      unread := (s.pipes i).unread.drop n, reader := (s.pipes i).reader.feedData ((s.pipes i).unread.take n) })
  | close {i : Source} (all : (s.pipes i).unread = []) (first : (s.pipes i).reader.eof = false) :
    Moved rc s (s.setPipe i { s.pipes i with reader := (s.pipes i).reader.feedEof })
  | exit (first : s.exited = false) : Moved rc s { s with exited := true }
  | raise {i : Source} {reader : StreamReader} (running : (s.pipes i).task = .running)
      (read : (s.pipes i).reader.readline = some (.error reader)) :
    Moved rc s (s.setPipe i { s.pipes i with reader, task := .raised })
  | finish {i : Source} {reader : StreamReader} (running : (s.pipes i).task = .running)
      (read : (s.pipes i).reader.readline = some (.line [] reader)) :
    Moved rc s ((s.setPipe i { s.pipes i with reader, task := .returned }).put i none)
  | line {i : Source} {line : Bytes} {reader : StreamReader} (running : (s.pipes i).task = .running)
      (read : (s.pipes i).reader.readline = some (.line line reader)) (ne : line ≠ []) :
    Moved rc s ((s.setPipe i { s.pipes i with reader }).put i (some (rstripNewline (decode line))))
  | take {n : Nat} {i : Source} {line : String} {q : List (Source × Option String)}
      (draining : s.consumer = .draining (n + 1))
      (head : s.q = (i, some line) :: q) :
    Moved rc s { s with q, yielded := s.yielded ++ [(i.label, line)] }
  | mark {n : Nat} {i : Source} {q : List (Source × Option String)} (draining : s.consumer = .draining (n + 1))
      (head : s.q = (i, none) :: q) :
    Moved rc s { s with q, consumer := .draining n }
  | gather (drained : s.consumer = .draining 0) : Moved rc s { s with consumer := .gathering }
  | fail {i : Source} (gathering : s.consumer = .gathering) (raised : (s.pipes i).task = .raised) :
    Moved rc s { s with consumer := .failed }
  | wait (gathering : s.consumer = .gathering) : Moved rc s { s with consumer := .waiting }
  | done (waiting : s.consumer = .waiting) :
    Moved rc s { s with consumer := .ended, yielded := s.yielded ++ [("exit", toString rc)] }

theorem drain_moved {rc : Int} {s t : State} {i : Source} (h : s.drain i = some t) : Moved rc s t := by
  rw [State.drain] at h
  split at h
  case isFalse => cases h
  case isTrue hrun =>
    obtain ⟨read, hread, rfl⟩ := Option.map_eq_some_iff.mp h
    cases read with
    | error reader => exact .raise hrun hread
    | line line reader =>
      dsimp only
      split
      case isTrue hline =>
        subst hline
        exact .finish hrun hread
      case isFalse hne => exact .line hrun hread hne

theorem consume_moved {rc : Int} {s t : State} (h : s.consume rc = some t) : Moved rc s t := by
  rw [State.consume] at h
  split at h
  case h_1 hc =>
    obtain rfl := Option.some.inj h
    exact .gather hc
  case h_2 n hc =>
    split at h
    case h_1 => cases h
    case h_2 i q hq =>
      obtain rfl := Option.some.inj h
      exact .mark hc hq
    case h_3 i line q hq =>
      obtain rfl := Option.some.inj h
      exact .take hc hq
  case h_3 hc =>
    split at h
    case isTrue hraised =>
      obtain rfl := Option.some.inj h
      rcases hraised with hraised | hraised
      · exact .fail hc hraised
      · exact .fail hc hraised
    case isFalse =>
      split at h
      case isFalse => cases h
      case isTrue =>
        obtain rfl := Option.some.inj h
        exact .wait hc
  case h_4 hc =>
    split at h
    case isFalse => cases h
    case isTrue =>
      obtain rfl := Option.some.inj h
      exact .done hc
  case h_5 => cases h
  case h_6 => cases h

theorem step_moved {rc : Int} {s t : State} {a : Action} (h : step rc s a = some t) : Moved rc s t := by
  cases a with
  | feed i n =>
    simp only [step] at h
    split at h
    case isFalse => cases h
    case isTrue hn =>
      obtain rfl := Option.some.inj h
      exact .feed hn.1 hn.2.1 hn.2.2
  | close i =>
    simp only [step] at h
    split at h
    case isFalse => cases h
    case isTrue hi =>
      obtain rfl := Option.some.inj h
      exact .close hi.1 hi.2.1
  | exit =>
    simp only [step] at h
    split at h
    case isTrue => cases h
    case isFalse hexited =>
      obtain rfl := Option.some.inj h
      exact .exit (eq_false_of_ne_true hexited)
  | drain i => exact drain_moved h
  | consume => exact consume_moved h

@[simp] theorem pipes_setPipe (s : State) (i : Source) (p : Pipe) : (s.setPipe i p).pipes i = p :=
  Function.update_self _ _ _

theorem pipes_setPipe_ne (s : State) {i j : Source} (h : j ≠ i) (p : Pipe) : (s.setPipe i p).pipes j = s.pipes j :=
  Function.update_of_ne h _ _

@[simp] theorem pipes_put (s : State) (i : Source) (m : Option String) : (s.put i m).pipes = s.pipes := rfl

/-- What holds of every pipe holds after one of them has changed, if it does of the new one. -/
theorem all_setPipe {P : Source → Pipe → Prop} {s : State} {i : Source} {p : Pipe}
    (hs : ∀ j, P j (s.pipes j)) (hp : P i p) :
    ∀ j, P j ((s.setPipe i p).pipes j) := by
  intro j
  by_cases h : j = i
  · subst h
    rwa [pipes_setPipe]
  · rw [pipes_setPipe_ne s h]
    exact hs j

/-! ## Every run ends -/

def Task.rank : Task → Nat
  | .running => 2
  | .returned => 0
  | .raised => 0

def Consumer.rank : Consumer → Nat
  | .draining n => n + 3
  | .gathering => 2
  | .waiting => 1
  | .ended => 0
  | .failed => 0

/-- A byte that is read becomes part of at most one message. -/
def Pipe.weight (p : Pipe) : Nat :=
  3 * p.unread.length + 2 * p.reader.buffer.length + (!p.reader.eof).toNat + p.task.rank

def State.weight (s : State) : Nat :=
  (s.pipes .stdout).weight + (s.pipes .stderr).weight + s.q.length + (!s.exited).toNat + s.consumer.rank

theorem weight_setPipe (s : State) (i : Source) (p : Pipe) :
    (s.setPipe i p).weight + (s.pipes i).weight = s.weight + p.weight := by
  cases i with
  | stdout =>
    rw [State.weight, pipes_setPipe, pipes_setPipe_ne s (by decide), State.weight]
    dsimp only [State.setPipe]
    omega
  | stderr =>
    rw [State.weight, pipes_setPipe, pipes_setPipe_ne s (by decide), State.weight]
    dsimp only [State.setPipe]
    omega

theorem setPipe_down {s : State} {i : Source} {p : Pipe} (h : p.weight < (s.pipes i).weight) :
    (s.setPipe i p).weight < s.weight := by
  have hw := weight_setPipe s i p
  omega

theorem put_down {s : State} {i : Source} {p : Pipe} (h : p.weight + 1 < (s.pipes i).weight) (m : Option String) :
    ((s.setPipe i p).put i m).weight < s.weight := by
  have hw := weight_setPipe s i p
  have hput : ((s.setPipe i p).put i m).weight = (s.setPipe i p).weight + 1 := by
    simp only [State.weight, State.put, List.length_append, List.length_singleton]
    omega
  omega

theorem moved_down {rc : Int} {s t : State} (h : Moved rc s t) : t.weight < s.weight := by
  cases h with
  | @feed i n pos le =>
    apply setPipe_down
    simp only [Pipe.weight, StreamReader.feedData, List.length_append, List.length_drop, List.length_take,
      Nat.min_eq_left le]
    omega
  | @close i all first =>
    apply setPipe_down
    simp only [Pipe.weight, StreamReader.feedEof, first, Bool.not_true, Bool.not_false, Bool.toNat_true,
      Bool.toNat_false]
    omega
  | exit first =>
    simp only [State.weight, first, Bool.not_true, Bool.not_false, Bool.toNat_true, Bool.toNat_false]
    omega
  | @raise i reader running read =>
    have hl := StreamReader.error_length read
    apply setPipe_down
    simp only [Pipe.weight, running, StreamReader.error_eof read, Task.rank]
    omega
  | @finish i reader running read =>
    have hl := StreamReader.line_length read
    apply put_down
    simp only [Pipe.weight, running, StreamReader.line_eof read, Task.rank]
    omega
  | @line i line reader running read ne =>
    have hl := StreamReader.line_length read
    have hpos := List.length_pos_iff.mpr ne
    apply put_down
    simp only [Pipe.weight, StreamReader.line_eof read]
    omega
  | take draining head =>
    simp only [State.weight, head, List.length_cons]
    omega
  | mark draining head =>
    simp only [State.weight, head, draining, Consumer.rank, List.length_cons]
    omega
  | gather drained =>
    simp only [State.weight, drained, Consumer.rank]
    omega
  | fail gathering =>
    simp only [State.weight, gathering, Consumer.rank]
    omega
  | wait gathering =>
    simp only [State.weight, gathering, Consumer.rank]
    omega
  | done waiting =>
    simp only [State.weight, waiting, Consumer.rank]
    omega

theorem step_down {rc : Int} (s : State) (a : Action) (t : State) (h : step rc s a = some t) : t.weight < s.weight :=
  moved_down (step_moved h)

/-! ## What the tasks put -/

def fits (l : Bytes) : Bool := decide (l.length ≤ limit)

/-- What `_drain` puts for these lines: all before the first that does not fit, and the
    marker when there is none such. -/
def script (ls : List Bytes) : List (Option String) := Funnel.puts ((ls.takeWhile fits).map decode) (ls.all fits)

theorem script_fits {l : Bytes} (h : l.length ≤ limit) (ls : List Bytes) :
    script (l :: ls) = some (decode l) :: script ls := by
  have hfits : fits l = true := decide_eq_true h
  simp [script, Funnel.puts, hfits]

theorem script_long {l : Bytes} (h : limit < l.length) (ls : List Bytes) : script (l :: ls) = [] := by
  have hfits : fits l = false := decide_eq_false (Nat.not_le_of_lt h)
  simp [script, Funnel.puts, hfits]

/-- What the task of a stream has still to put. -/
def Pipe.todo (p : Pipe) : List (Option String) :=
  match p.task with
  | .running => script (lines (p.reader.buffer ++ p.unread))
  | .returned => []
  | .raised => []

/-! ## The pipes -/

structure Pipe.Intact (written : Bytes) (p : Pipe) : Prop where
  fed : p.reader.Fed p.unread
  rest : p.task = .running → lines (p.reader.buffer ++ p.unread) <:+ lines written
  broke : p.task = .raised → ∃ l ∈ lines written, limit < l.length

structure Intact (writes : Source → Bytes) (s : State) : Prop where
  pipes : ∀ i, (s.pipes i).Intact (writes i)
  failed : s.consumer = .failed → ∃ i, ∃ l ∈ lines (writes i), limit < l.length

theorem fed_append {p : Pipe} (n : Nat) :
    (p.reader.feedData (p.unread.take n)).buffer ++ p.unread.drop n = p.reader.buffer ++ p.unread := by
  rw [StreamReader.feedData, List.append_assoc, List.take_append_drop]

theorem moved_intact {writes : Source → Bytes} {rc : Int} {s t : State} (hs : Intact writes s) (h : Moved rc s t) :
    Intact writes t := by
  have hpipe {i : Source} {p : Pipe} (hp : p.Intact (writes i)) : Intact writes (s.setPipe i p) :=
    ⟨all_setPipe (P := fun i p => p.Intact (writes i)) hs.pipes hp, hs.failed⟩
  cases h with
  | @feed i n pos le =>
    refine hpipe ⟨StreamReader.fed_feedData ?_, ?_, (hs.pipes i).broke⟩
    · rw [List.take_append_drop]
      exact (hs.pipes i).fed
    · dsimp only
      rw [fed_append]
      exact (hs.pipes i).rest
  | @close i all first =>
    refine hpipe ⟨?_, (hs.pipes i).rest, (hs.pipes i).broke⟩
    have hfed := (hs.pipes i).fed
    dsimp only
    rw [all] at hfed ⊢
    exact StreamReader.fed_feedEof hfed
  | exit => exact ⟨hs.pipes, hs.failed⟩
  | @raise i reader running read =>
    cases StreamReader.readline_takes (hs.pipes i).fed read with
    | long first long fed =>
      refine hpipe ⟨fed, nofun, fun _ => ⟨_, ?_, long⟩⟩
      have hrest := (hs.pipes i).rest running
      rw [first] at hrest
      exact hrest.subset List.mem_cons_self
  | @finish i reader running read =>
    have hfed : reader.Fed (s.pipes i).unread := by
      cases StreamReader.readline_takes (hs.pipes i).fed read with
      | line ne => exact absurd rfl ne
      | last _ fed => exact fed
    obtain ⟨hpipes, hfailed⟩ :=
      hpipe (i := i) (p := { s.pipes i with reader, task := .returned }) ⟨hfed, nofun, nofun⟩
    exact ⟨hpipes, hfailed⟩
  | @line i line reader running read ne =>
    cases StreamReader.readline_takes (hs.pipes i).fed read with
    | last => exact absurd rfl ne
    | line _ _ first _ fed =>
      have hrest := (hs.pipes i).rest running
      rw [first] at hrest
      obtain ⟨hpipes, hfailed⟩ := hpipe (i := i) (p := { s.pipes i with reader })
        ⟨fed, fun _ => (List.suffix_cons _ _).trans hrest, (hs.pipes i).broke⟩
      exact ⟨hpipes, hfailed⟩
  | take => exact ⟨hs.pipes, hs.failed⟩
  | mark => exact ⟨hs.pipes, nofun⟩
  | gather => exact ⟨hs.pipes, nofun⟩
  | @fail i _ raised => exact ⟨hs.pipes, fun _ => ⟨i, (hs.pipes i).broke raised⟩⟩
  | wait => exact ⟨hs.pipes, nofun⟩
  | done => exact ⟨hs.pipes, nofun⟩

/-! ## The queue -/

def Consumer.openStreams : Consumer → Nat
  | .draining n => n
  | .gathering => 0
  | .waiting => 0
  | .ended => 0
  | .failed => 0

/-- The last tuple, when it has been yielded. -/
def Consumer.exitTuple (rc : Int) : Consumer → List (String × String)
  | .ended => [("exit", toString rc)]
  | .draining _ => []
  | .gathering => []
  | .waiting => []
  | .failed => []

/-- The tasks and the generator are the producers and the consumer of the queue. -/
structure Follows (rc : Int) (s : State) (t : Funnel.State Source String) : Prop where
  queue : t.queue = s.q
  todo : ∀ i, t.todo i = (s.pipes i).todo
  marks : s.consumer.openStreams + Funnel.marks t.taken = 2
  yielded : s.yielded = (Funnel.items t.taken).map (fun m => (m.1.label, m.2)) ++ s.consumer.exitTuple rc

theorem follows_setPipe {rc : Int} {s : State} {t : Funnel.State Source String} (h : Follows rc s t)
    {i : Source} {p : Pipe} (hp : p.todo = (s.pipes i).todo) : Follows rc (s.setPipe i p) t :=
  ⟨h.queue, all_setPipe (P := fun i p => t.todo i = p.todo) h.todo (by rw [hp, h.todo]), h.marks, h.yielded⟩

theorem follows_take {rc : Int} {s : State} {t : Funnel.State Source String} (h : Follows rc s t)
    {m : Source × Option String}
    {q : List (Source × Option String)} (head : s.q = m :: q) {c : Consumer} {yielded : List (String × String)}
    (hmarks : c.openStreams + Funnel.marks (t.taken ++ [m]) = 2)
    (hyielded : yielded = (Funnel.items (t.taken ++ [m])).map (fun m => (m.1.label, m.2)) ++ c.exitTuple rc) :
    ∃ bs t', Steps.run Funnel.step t bs = some t' ∧ Follows rc { s with q, consumer := c, yielded } t' := by
  refine ⟨[.take], { t with queue := q, taken := t.taken ++ [m] }, ?_, rfl, h.todo, hmarks, hyielded⟩
  rw [Steps.run, Funnel.step_take (by rw [h.queue, head])]
  rfl

/-- Behind its loop the generator takes nothing more from the queue. -/
theorem follows_consumer {rc : Int} {s : State} {t : Funnel.State Source String} (h : Follows rc s t) {c : Consumer}
    (hopen : c.openStreams = s.consumer.openStreams) (hexit : c.exitTuple rc = s.consumer.exitTuple rc) :
    Follows rc { s with consumer := c } t :=
  ⟨h.queue, h.todo, by rw [hopen]; exact h.marks, by rw [hexit]; exact h.yielded⟩

theorem follows_put {rc : Int} {s : State} {t : Funnel.State Source String} (h : Follows rc s t)
    {i : Source} {p : Pipe} {m : Option String} (hp : (s.pipes i).todo = m :: p.todo) :
    ∃ bs t', Steps.run Funnel.step t bs = some t' ∧ Follows rc ((s.setPipe i p).put i m) t' := by
  refine ⟨[.put i], { t with todo := Function.update t.todo i p.todo, queue := t.queue ++ [(i, m)] }, ?_, ?_⟩
  · rw [Steps.run, Funnel.step_put (by rw [h.todo, hp])]
    rfl
  · refine ⟨by rw [h.queue]; rfl, ?_, h.marks, h.yielded⟩
    intro j
    by_cases hj : j = i
    · subst hj
      rw [pipes_put, pipes_setPipe]
      exact Function.update_self _ _ _
    · rw [pipes_put, pipes_setPipe_ne s hj, ← h.todo]
      exact Function.update_of_ne hj _ _

theorem moved_follows {writes : Source → Bytes} {rc : Int} {s s' : State} {t : Funnel.State Source String}
    (hs : Intact writes s) (hf : Follows rc s t) (h : Moved rc s s') :
    ∃ bs t', Steps.run Funnel.step t bs = some t' ∧ Follows rc s' t' := by
  cases h with
  | @feed i n pos le =>
    refine ⟨[], t, rfl, follows_setPipe hf ?_⟩
    simp only [Pipe.todo, fed_append]
  | close => exact ⟨[], t, rfl, follows_setPipe hf rfl⟩
  | exit => exact ⟨[], t, rfl, hf.queue, hf.todo, hf.marks, hf.yielded⟩
  | @raise i reader running read =>
    cases StreamReader.readline_takes (hs.pipes i).fed read with
    | long first long _ =>
      refine ⟨[], t, rfl, follows_setPipe hf ?_⟩
      simp only [Pipe.todo, running, first, script_long long]
  | @finish i reader running read =>
    refine follows_put hf ?_
    cases StreamReader.readline_takes (hs.pipes i).fed read with
    | line ne => exact absurd rfl ne
    | last buffer _ =>
      simp only [Pipe.todo, running, buffer]
      rfl
  | @line i line reader running read ne =>
    refine follows_put hf ?_
    cases StreamReader.readline_takes (hs.pipes i).fed read with
    | last => exact absurd rfl ne
    | line _ text first short _ => simp only [Pipe.todo, running, first, script_fits short, text]
  | @take n i line q draining head =>
    have hyielded := hf.yielded
    rw [draining, Consumer.exitTuple, List.append_nil] at hyielded
    refine follows_take hf head ?_ ?_
    · rw [Funnel.marks_append]
      exact hf.marks
    · rw [hyielded, draining, Consumer.exitTuple, List.append_nil, Funnel.items_append, List.map_append]
      rfl
  | @mark n i q draining head =>
    have hmarks := hf.marks
    have hyielded := hf.yielded
    rw [draining, Consumer.openStreams] at hmarks
    rw [draining, Consumer.exitTuple] at hyielded
    refine follows_take hf head ?_ ?_
    · rw [Funnel.marks_append]
      show n + (Funnel.marks t.taken + 1) = 2
      omega
    · rw [Funnel.items_append]
      simpa [Consumer.exitTuple, Funnel.items] using hyielded
  | gather drained => exact ⟨[], t, rfl, follows_consumer hf (by rw [drained]; rfl) (by rw [drained]; rfl)⟩
  | fail gathering => exact ⟨[], t, rfl, follows_consumer hf (by rw [gathering]; rfl) (by rw [gathering]; rfl)⟩
  | wait gathering => exact ⟨[], t, rfl, follows_consumer hf (by rw [gathering]; rfl) (by rw [gathering]; rfl)⟩
  | done waiting =>
    obtain ⟨hqueue, htodo, hmarks, hyielded⟩ := hf
    rw [waiting] at hmarks hyielded
    refine ⟨[], t, rfl, hqueue, htodo, hmarks, ?_⟩
    rw [hyielded]
    simp [Consumer.exitTuple]

/-! ## Runs -/

theorem card_source : Fintype.card Source = 2 := rfl

section Runs

variable {writes : Source → Bytes} {rc : Int} {as : List Action} {s : State}

/-- In every state of a run the queue is a funnel that has kept everything. -/
theorem reached (h : Steps.run (step rc) (start writes) as = some s) :
    Intact writes s ∧ ∃ t, Funnel.Kept (fun i => script (lines (writes i))) t ∧ Follows rc s t := by
  have hstart : Intact writes (start writes) ∧
      Follows rc (start writes) (Funnel.start fun i => script (lines (writes i))) :=
    ⟨⟨fun _ => ⟨⟨nofun, nofun⟩, fun _ => List.suffix_refl _, nofun⟩, nofun⟩, ⟨rfl, fun _ => rfl, rfl, rfl⟩⟩
  obtain ⟨bs, t, ht, hs, hf⟩ := Steps.simulates (R := fun s t => Intact writes s ∧ Follows rc s t)
    (fun s a s' t hst ha => by
      obtain ⟨bs, t', ht', hf'⟩ := moved_follows hst.1 hst.2 (step_moved ha)
      exact ⟨bs, t', ht', moved_intact hst.1 (step_moved ha), hf'⟩) hstart h
  exact ⟨hs, t, Steps.keeps (fun _ _ _ => Funnel.kept_step) (Funnel.kept_start _) ht, hf⟩

/-- A task that can go no further has read its stream to the end, if every line fits. -/
theorem returned_of_stuck (hs : Intact writes s) (hfit : ∀ i, ∀ l ∈ lines (writes i), l.length ≤ limit)
    (hstuck : Steps.Stuck (step rc) s) (i : Source) : (s.pipes i).task = .returned := by
  cases htask : (s.pipes i).task with
  | returned => rfl
  | raised =>
    obtain ⟨l, hl, hlong⟩ := (hs.pipes i).broke htask
    exact absurd (hfit i l hl) (Nat.not_le_of_lt hlong)
  | running =>
    exfalso
    have hread : (s.pipes i).reader.readline = none := by simpa [step, State.drain, htask] using hstuck (.drain i)
    obtain ⟨hshort, heof⟩ := StreamReader.waits hread
    -- so the transport goes on, and has something to hand over
    have hgoing : (s.pipes i).reader.paused = false := by
      rw [Bool.eq_false_iff]
      exact fun hp => absurd ((hs.pipes i).fed.full hp) (Nat.not_lt_of_le hshort)
    by_cases hunread : (s.pipes i).unread = []
    · have hclose := hstuck (.close i)
      simp [step, hunread, heof, hgoing] at hclose
    · have hfeed := hstuck (.feed i (s.pipes i).unread.length)
      simp [step, hgoing, List.length_pos_iff, hunread] at hfeed

/-- With a line over the limit the generator never has both markers. -/
theorem draining_of_long (hlong : ∃ i, ∃ l ∈ lines (writes i), limit < l.length)
    (h : Steps.run (step rc) (start writes) as = some s) : ∃ n, s.consumer = .draining (n + 1) := by
  obtain ⟨_, t, hkept, hf⟩ := reached h
  obtain ⟨i, l, hl, hlong⟩ := hlong
  have hopen : s.consumer.openStreams ≠ 0 := by
    intro hzero
    have hmarks := hf.marks
    rw [hzero, Nat.zero_add, ← card_source] at hmarks
    have hall := (Funnel.all_end hkept hmarks i).1
    have hfits := List.all_eq_true.mp hall l hl
    exact absurd (of_decide_eq_true hfits) (Nat.not_le_of_lt hlong)
  cases hc : s.consumer with
  | draining n =>
    cases n with
    | zero => exact absurd (by rw [hc]; rfl) hopen
    | succ n => exact ⟨n, rfl⟩
  | gathering => exact absurd (by rw [hc]; rfl) hopen
  | waiting => exact absurd (by rw [hc]; rfl) hopen
  | ended => exact absurd (by rw [hc]; rfl) hopen
  | failed => exact absurd (by rw [hc]; rfl) hopen

/-- The generator waits only on an empty queue. -/
theorem q_of_stuck {n : Nat} (hc : s.consumer = .draining (n + 1)) (hstuck : Steps.Stuck (step rc) s) : s.q = [] := by
  have hconsume : s.consume rc = none := hstuck .consume
  rw [State.consume, hc] at hconsume
  dsimp only at hconsume
  split at hconsume
  case h_1 hq => exact hq
  case h_2 => cases hconsume
  case h_3 => cases hconsume

/-- With a line over the limit no run delivers: where it can go no further the generator waits. -/
theorem waits_for_ever (hlong : ∃ i, ∃ l ∈ lines (writes i), limit < l.length)
    (h : Steps.run (step rc) (start writes) as = some s) (hstuck : Steps.Stuck (step rc) s) :
    (∃ n, s.consumer = .draining (n + 1)) ∧ s.q = [] := by
  obtain ⟨n, hn⟩ := draining_of_long hlong h
  exact ⟨⟨n, hn⟩, q_of_stuck hn hstuck⟩

/-- When every line fits, a run that can go no further has delivered everything. -/
theorem ended_of_stuck (hfit : ∀ i, ∀ l ∈ lines (writes i), l.length ≤ limit)
    (h : Steps.run (step rc) (start writes) as = some s) (hstuck : Steps.Stuck (step rc) s) :
    s.consumer = .ended := by
  obtain ⟨hs, t, hkept, hf⟩ := reached h
  have htask := returned_of_stuck hs hfit hstuck
  have hconsume : s.consume rc = none := hstuck .consume
  rw [State.consume] at hconsume
  cases hc : s.consumer with
  | draining n =>
    cases n with
    | zero => simp [hc] at hconsume
    | succ n =>
      have hq : t.queue = [] := by rw [hf.queue, q_of_stuck hc hstuck]
      have htodo (i : Source) : t.todo i = [] := by rw [hf.todo, Pipe.todo, htask i]
      have hends (i : Source) : (lines (writes i)).all fits = true :=
        List.all_eq_true.mpr fun l hl => decide_eq_true (hfit i l hl)
      have hmarks := hf.marks
      rw [Funnel.marks_idle hkept htodo hq hends, card_source, hc, Consumer.openStreams] at hmarks
      omega
  | gathering => simp [hc, htask] at hconsume
  | waiting =>
    have hexit : s.exited = true := by simpa [step] using hstuck .exit
    simp [hc, hexit] at hconsume
  | ended => rfl
  | failed =>
    obtain ⟨i, l, hl, hlong⟩ := hs.failed hc
    exact absurd (hfit i l hl) (Nat.not_le_of_lt hlong)

end Runs

/-! ## Delivery -/

/-- The generator has ended; it has yielded the lines of each stream in order, and the exit
    code behind them. -/
structure Delivered (writes : Source → Bytes) (rc : Int) (s : State) : Prop where
  ended : s.consumer = .ended
  all : ∃ body, s.yielded = body ++ [("exit", toString rc)] ∧ (∀ y ∈ body, ∃ i : Source, y.1 = i.label) ∧
    ∀ i : Source, (body.filter fun y => y.1 = i.label).map (·.2) = (lines (writes i)).map decode

/-- No run is endless, and every run that can go no further has delivered. -/
structure Delivers (writes : Source → Bytes) (rc : Int) : Prop where
  ends : ∃ n, ∀ as s, Steps.run (step rc) (start writes) as = some s → as.length ≤ n
  delivers : ∀ as s, Steps.run (step rc) (start writes) as = some s → Steps.Stuck (step rc) s → Delivered writes rc s

theorem label_inj {i j : Source} : i.label = j.label ↔ i = j := by
  cases i <;> cases j <;> decide

theorem delivered_of_fit {writes : Source → Bytes} {rc : Int} (hfit : ∀ i, ∀ l ∈ lines (writes i), l.length ≤ limit)
    {as : List Action} {s : State} (h : Steps.run (step rc) (start writes) as = some s)
    (hstuck : Steps.Stuck (step rc) s) :
    Delivered writes rc s := by
  have hended := ended_of_stuck hfit h hstuck
  obtain ⟨hs, t, hkept, hf⟩ := reached h
  obtain ⟨_, _, hmarks, hyielded⟩ := hf
  rw [hended] at hmarks hyielded
  refine ⟨hended, (Funnel.items t.taken).map (fun m => (m.1.label, m.2)), hyielded, ?_, ?_⟩
  · intro y hy
    obtain ⟨m, _, rfl⟩ := List.mem_map.mp hy
    exact ⟨m.1, rfl⟩
  · intro i
    have htake : (lines (writes i)).takeWhile fits = lines (writes i) :=
      List.takeWhile_eq_self_iff.mpr fun l hl => decide_eq_true (hfit i l hl)
    have hreceived := Funnel.received hkept (by simpa [Consumer.openStreams, card_source] using hmarks) i
    rw [htake] at hreceived
    rw [List.filter_map, List.map_map, ← hreceived]
    simp only [Function.comp_def, label_inj]

theorem not_delivers {writes : Source → Bytes} (rc : Int) (hlong : ∃ i, ∃ l ∈ lines (writes i), limit < l.length) :
    ¬ Delivers writes rc := by
  intro hd
  obtain ⟨as, s, h, hstuck⟩ := Steps.gets_stuck (@step_down rc) (start writes)
  obtain ⟨⟨n, hn⟩, _⟩ := waits_for_ever hlong h hstuck
  have hended := (hd.delivers as s h hstuck).ended
  rw [hn] at hended
  cases hended

theorem delivers_iff (writes : Source → Bytes) (rc : Int) :
    Delivers writes rc ↔ ∀ i, ∀ l ∈ lines (writes i), l.length ≤ limit := by
  constructor
  · intro hd i l hl
    by_contra hlong
    exact not_delivers rc ⟨i, l, hl, Nat.lt_of_not_le hlong⟩ hd
  · intro hfit
    refine ⟨⟨(start writes).weight, fun as s h => ?_⟩, fun as s h hstuck => delivered_of_fit hfit h hstuck⟩
    have hbound := Steps.bounded (@step_down rc) h
    omega

example : (Steps.run (step 3) (start fun | .stdout => [97, 10] | .stderr => [])
    [.feed .stdout 2, .drain .stdout, .consume, .exit, .close .stderr, .drain .stderr, .consume,
      .close .stdout, .drain .stdout,
      .consume, .consume, .consume, .consume]).map State.yielded = some [("stdout", "a"), ("exit", "3")] := by decide

/-- A build log with one line of 65537 bytes. -/
theorem long_line_hangs : ¬ Delivers (fun | .stdout => List.replicate 65537 97 | .stderr => []) 0 := by
  refine not_delivers 0 ⟨.stdout, List.replicate 65537 97, ?_, ?_⟩
  · have hno : newline ∉ List.replicate 65537 (97 : UInt8) :=
      fun hm => absurd (List.eq_of_mem_replicate hm) (by decide)
    rw [lines_last hno (List.ne_nil_of_length_pos (by rw [List.length_replicate]; decide))]
    exact List.mem_singleton_self _
  · rw [List.length_replicate]
    decide

end Connect.Shell
