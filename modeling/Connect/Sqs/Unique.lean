/-
  Connect.Sqs.Unique — one pending row and one import per event, unless two probes race.

  `process_s3_event` asks whether the event was recorded and then inserts its row, and no
  unique constraint stands behind it. Two workers may both be told no, and then both
  insert and import (`imported_twice`): the poll lock does not keep them apart, since it
  can expire under a sweep. `InsertOk` rules exactly this out: no other pending row of the
  event commits between a worker's probe and its own INSERT.

  `import_once_iff`: a run has at most one pending row and one import for every event
  exactly when all its steps are such. A process imports only after its own INSERT and
  once per INSERT (`Balanced`), which its law knows from `current`, the event it probed
  for last; and the probe's answer speaks for all INSERTs before it (`beforeProbe`).
-/

import Connect.Sqs.Sweep

namespace Connect.Sqs

open Await

/-- The event whose pending row was inserted. -/
def insertOf : Event sqsSig Exc → Option EventKey
  | ⟨_, .createEvent queueId messageId event, .ok _⟩ => some ⟨messageId, queueId, event.key⟩
  | _ => none

def probeOf : Event sqsSig Exc → Option EventKey
  | ⟨_, .existsForMessage key, _⟩ => some key
  | _ => none

def isImport : Event sqsSig Exc → Bool
  | ⟨_, .importFile _ _, _⟩ => true
  | _ => false

def probes (pid : Nat) (e : Event sqsSig Exc) : Bool := e.pid == pid && (probeOf e).isSome

/-- The event a process is working on: the one it probed for last. -/
def current (pid : Nat) : SqsHist → Option EventKey
  | [] => none
  | e :: h => if probes pid e then probeOf e else current pid h

/-- What happened since the last probe of a process, and before it. -/
def sinceProbe (pid : Nat) : SqsHist → SqsHist
  | [] => []
  | e :: h => if probes pid e then [] else e :: sinceProbe pid h

def beforeProbe (pid : Nat) : SqsHist → SqsHist
  | [] => []
  | e :: h => if probes pid e then h else beforeProbe pid h

def insertsOf (key : EventKey) (h : SqsHist) : SqsHist := h.filter (insertOf · == some key)

/-- The calls of `import_file` for an event. -/
def importsOf (key : EventKey) : SqsHist → SqsHist
  | [] => []
  | e :: h => if isImport e ∧ current e.pid h = some key then e :: importsOf key h else importsOf key h

def countBy (pid : Nat) (h : SqsHist) : Nat := h.countP (·.pid == pid)

/-- Every event has at most one pending row inserted and is imported at most once. -/
def Once (h : SqsHist) : Prop := ∀ key, (insertsOf key h).length ≤ 1 ∧ (importsOf key h).length ≤ 1

/-- The INSERT of a pending row commits with no other one of the event since its probe. -/
def InsertAllowed (pid : Nat) (h : SqsHist) (o : SqsOp) (r : Except Exc o.Ret) : Prop :=
  ∀ key, insertOf ⟨pid, o, r⟩ = some key → ∀ e ∈ sinceProbe pid h, insertOf e ≠ some key

variable {room : Nat}

def InsertOk (c : Config (pollers room)) (e : Event sqsSig Exc) : Prop := InsertAllowed e.pid c.w.hist e.op e.ans

/-! ## Histories -/

theorem insertOf_noProbe {e : Event sqsSig Exc} {key : EventKey} (h : insertOf e = some key) : probeOf e = none := by
  obtain ⟨p, o, r⟩ := e
  cases o <;> first | rfl | cases h

theorem sinceProbe_subset {pid : Nat} {h : SqsHist} {e : Event sqsSig Exc} (he : e ∈ sinceProbe pid h) : e ∈ h := by
  induction h with
  | nil => cases he
  | cons x h ih =>
    unfold sinceProbe at he
    split at he
    · cases he
    · rcases List.mem_cons.mp he with rfl | he
      · exact List.mem_cons_self
      · exact List.mem_cons_of_mem _ (ih he)

theorem mem_probe {pid : Nat} {h : SqsHist} {e : Event sqsSig Exc} (he : e ∈ h) {key : EventKey}
    (hk : insertOf e = some key) :
    e ∈ sinceProbe pid h ∨ e ∈ beforeProbe pid h := by
  induction h with
  | nil => cases he
  | cons x h ih =>
    unfold sinceProbe beforeProbe
    rcases List.mem_cons.mp he with rfl | he
    · have hno : probes pid e = false := by simp [probes, insertOf_noProbe hk]
      simp [hno]
    · split
      · exact Or.inr he
      · exact (ih he).imp_left (List.mem_cons_of_mem _)

/-- A list with no more of any colour is no longer. -/
theorem length_le_of_countP {α : Type} (f : α → Nat) {l l' : List α}
    (h : ∀ i, l.countP (f · == i) ≤ l'.countP (f · == i)) : l.length ≤ l'.length := by
  induction l generalizing l' with
  | nil => exact Nat.zero_le _
  | cons a l ih =>
    have hpos : 0 < l'.countP (f · == f a) := by
      have := h (f a)
      simp only [List.countP_cons, beq_self_eq_true, if_true] at this
      omega
    obtain ⟨x, hx, hfx⟩ := List.countP_pos_iff.mp hpos
    obtain ⟨s, t, rfl⟩ := List.append_of_mem hx
    have hle : l.length ≤ (s ++ t).length := by
      refine ih fun i => ?_
      have hi := h i
      have hxa : f x = f a := by simpa using hfx
      simp only [List.countP_cons, List.countP_append, hxa] at hi ⊢
      omega
    simp only [List.length_append, List.length_cons] at hle ⊢
    omega

theorem insertsOf_cons (key : EventKey) (e : Event sqsSig Exc) (h : SqsHist) :
    insertsOf key (e :: h) = if insertOf e = some key then e :: insertsOf key h else insertsOf key h := by
  simp [insertsOf, List.filter_cons]

theorem importsOf_cons (key : EventKey) (e : Event sqsSig Exc) (h : SqsHist) :
    importsOf key (e :: h) = if isImport e ∧
    current e.pid h = some key then e :: importsOf key h else importsOf key h := rfl

theorem insertsOf_nil_iff {key : EventKey} {h : SqsHist} : insertsOf key h = [] ↔ ∀ e ∈ h, insertOf e ≠ some key := by
  simp [insertsOf, List.filter_eq_nil_iff]

theorem countBy_cons (pid : Nat) (e : Event sqsSig Exc) (h : SqsHist) :
    countBy pid (e :: h) = countBy pid h + if e.pid = pid then 1 else 0 := by
  simp [countBy, List.countP_cons]

/-- Every process imports an event no more often than it inserted a pending row for it. -/
def Balanced (h : SqsHist) : Prop := ∀ pid key, countBy pid (importsOf key h) ≤ countBy pid (insertsOf key h)

theorem Balanced.once {h : SqsHist} (hb : Balanced h) (hi : ∀ key, (insertsOf key h).length ≤ 1) : Once h :=
  fun key => ⟨hi key, Nat.le_trans (length_le_of_countP Event.pid fun pid => hb pid key) (hi key)⟩

/-- An operation of one process, seen by the balance: an import needs an INSERT to spare. -/
theorem Balanced.cons {h : SqsHist} {e : Event sqsSig Exc} (hb : Balanced h)
    (he : isImport e = true → ∀ key, current e.pid h = some key →
      countBy e.pid (importsOf key h) + 1 ≤ countBy e.pid (insertsOf key h)) :
    Balanced (e :: h) := by
  intro pid key
  have hle := hb pid key
  have hins : countBy pid (insertsOf key h) ≤ countBy pid (insertsOf key (e :: h)) := by
    rw [insertsOf_cons]
    split
    · rw [countBy_cons]; omega
    · exact Nat.le_refl _
  rw [importsOf_cons]
  split
  · rename_i hc
    rw [countBy_cons]
    split
    · rename_i hp
      subst hp
      have := he hc.1 key hc.2
      omega
    · omega
  · omega

/-! ## The law of a worker -/

/-- What another's operation, or one that is no probe, INSERT or import, leaves as it is. -/
structure Same (pid : Nat) (h h' : SqsHist) : Prop where
  current : current pid h' = current pid h
  before : beforeProbe pid h' = beforeProbe pid h
  imports : ∀ key, countBy pid (importsOf key h') = countBy pid (importsOf key h)
  inserts : ∀ key, countBy pid (insertsOf key h') = countBy pid (insertsOf key h)

theorem Same.refl (pid : Nat) (h : SqsHist) : Same pid h h := ⟨rfl, rfl, fun _ => rfl, fun _ => rfl⟩

theorem Same.trans {pid : Nat} {a b c : SqsHist} (h : Same pid a b) (h' : Same pid b c) : Same pid a c :=
  ⟨h'.current.trans h.current, h'.before.trans h.before, fun key => (h'.imports key).trans (h.imports key),
    fun key => (h'.inserts key).trans (h.inserts key)⟩

theorem same_other {pid : Nat} {e : Event sqsSig Exc} (h : SqsHist) (hne : e.pid ≠ pid) : Same pid h (e :: h) := by
  have hno : probes pid e = false := by simp [probes, hne]
  refine ⟨by simp [current, hno], by simp [beforeProbe, hno], fun key => ?_, fun key => ?_⟩
  · rw [importsOf_cons]
    split
    · rw [countBy_cons, if_neg hne]; rfl
    · rfl
  · rw [insertsOf_cons]
    split
    · rw [countBy_cons, if_neg hne]; rfl
    · rfl

/-- The operations that neither probe, insert a pending row nor import. -/
def PlainOp : SqsOp → Prop
  | .existsForMessage _ | .createEvent _ _ _ | .importFile _ _ => False
  | _ => True

theorem same_plain {pid q : Nat} {o : SqsOp} {r : Except Exc o.Ret} (h : SqsHist) (ho : PlainOp o) :
    Same pid h (⟨q, o, r⟩ :: h) := by
  have hp : probeOf ⟨q, o, r⟩ = none := by cases o <;> first | rfl | cases ho
  have hi : insertOf ⟨q, o, r⟩ = none := by cases o <;> first | rfl | cases ho
  have hm : isImport ⟨q, o, r⟩ = false := by cases o <;> first | rfl | cases ho
  have hno : probes pid ⟨q, o, r⟩ = false := by simp [probes, hp]
  exact ⟨by simp [current, hno], by simp [beforeProbe, hno], fun key => by simp [importsOf, hm],
    fun key => by simp [insertsOf_cons, hi]⟩

structure UniqueInv (w : SqsWorld room) : Prop where
  inserts : ∀ key, (insertsOf key w.hist).length ≤ 1
  /-- An inserted row is there to be found. -/
  found : ∀ e ∈ w.hist, ∀ key, insertOf e = some key → w.st.existsForMessage key = true
  balanced : Balanced w.hist

structure UniquePromise (pid : Nat) (w w' : SqsWorld room) : Prop where
  kept : ∀ key, w.st.existsForMessage key = true → w'.st.existsForMessage key = true
  hist : ∃ e, e.pid = pid ∧ w'.hist = e :: w.hist ∧
    (∀ key, insertOf e = some key → insertsOf key w.hist = [] ∧ w'.st.existsForMessage key = true) ∧
    (isImport e = true → ∀ key, current pid w.hist = some key →
      countBy pid (importsOf key w.hist) + 1 ≤ countBy pid (insertsOf key w.hist))

abbrev uniqueLawOf (room pid : Nat) : Law (SqsWorld room) sqsSig Exc :=
  (pollers room).law UniqueInv (fun pid a b => Same pid a.hist b.hist) UniquePromise
    (fun pid w o r => InsertAllowed pid w.hist o r) pid

theorem did_exists {pid : Nat} {s s' : Store} {o : SqsOp} {r : Except Exc o.Ret} (h : Did pid s o r s')
    {key : EventKey} (hk : s.existsForMessage key = true) : s'.existsForMessage key = true := by
  obtain ⟨row, hrow, hkey⟩ := exists_iff.mp hk
  cases h with
  | created | recorded => exact exists_iff.mpr ⟨row, List.mem_cons_of_mem _ hrow, hkey⟩
  | updated => exact exists_iff.mpr ⟨_, List.mem_map_of_mem hrow, by simp [hkey]⟩
  | _ => exact hk

theorem did_insert {pid : Nat} {s s' : Store} {o : SqsOp} {r : Except Exc o.Ret} (h : Did pid s o r s')
    {key : EventKey} (hi : insertOf ⟨pid, o, r⟩ = some key) : s'.existsForMessage key = true := by
  cases h with
  | created hrow hfresh =>
    cases hi
    exact exists_iff.mpr ⟨_, List.mem_cons_self, (newRow_some hrow).2.1⟩
  | answered hout => cases o <;> first | cases hi | cases hout
  | raised => cases o <;> cases hi
  | _ => cases hi

section Worker

variable {pid : Nat} {w w' : SqsWorld room}

/-- One operation, with what its process has to show for it. -/
theorem promise_of {o : SqsOp} {r : Except Exc o.Ret} (ha : (uniqueLawOf room pid).act w o r w')
    (hins : ∀ key, insertOf ⟨pid, o, r⟩ = some key → insertsOf key w.hist = [])
    (himp : isImport ⟨pid, o, r⟩ = true → ∀ key, current pid w.hist = some key →
      countBy pid (importsOf key w.hist) + 1 ≤ countBy pid (insertsOf key w.hist)) : UniquePromise pid w w' := by
  obtain ⟨_, s, hx, rfl⟩ := ha
  have hd := exec_did hx
  exact ⟨fun key => did_exists hd, _, rfl, rfl, fun key hk => ⟨hins key hk, did_insert hd hk⟩, himp⟩

theorem plain_insert {o : SqsOp} {r : Except Exc o.Ret} (ho : PlainOp o) : insertOf ⟨pid, o, r⟩ = none := by
  cases o <;> first | rfl | cases ho

theorem plain_import {o : SqsOp} {r : Except Exc o.Ret} (ho : PlainOp o) : isImport ⟨pid, o, r⟩ = false := by
  cases o <;> first | rfl | cases ho

/-- What `Same` does not disturb is kept over the plain operations. -/
theorem keeping {P : SqsHist → Prop} (hP : ∀ h h', Same pid h h' → P h → P h') :
    Keeping (uniqueLawOf room pid) PlainOp (fun w => P w.hist) := by
  refine ⟨fun a b hr => hP _ _ hr, fun w o r w' ho hw _ ha => ⟨promise_of ha ?_ ?_, ?_⟩⟩
  · intro key hk; rw [plain_insert ho] at hk; cases hk
  · intro hm; rw [plain_import ho] at hm; cases hm
  · obtain ⟨_, s, _, rfl⟩ := ha
    exact hP _ _ (same_plain _ ho) hw

theorem status_plain {eventId : EventId} (o : SqsOp) (h : StatusOp eventId o) : PlainOp o := by
  cases o <;> trivial

theorem outer_plain (o : SqsOp) (h : OuterOp o) : PlainOp o := by
  cases o <;> trivial

/-- After a probe that found nothing. -/
def Clear (pid : Nat) (key : EventKey) (h : SqsHist) : Prop :=
  current pid h = some key ∧ ∀ e ∈ beforeProbe pid h, insertOf e ≠ some key

/-- After the INSERT of the pending row. -/
def Due (pid : Nat) (key : EventKey) (h : SqsHist) : Prop :=
  current pid h = some key ∧ countBy pid (importsOf key h) + 1 ≤ countBy pid (insertsOf key h)

theorem Clear.same {key : EventKey} {h h' : SqsHist} (hs : Same pid h h') (hc : Clear pid key h) : Clear pid key h' :=
  ⟨by rw [hs.current]; exact hc.1, by rw [hs.before]; exact hc.2⟩

theorem Due.same {key : EventKey} {h h' : SqsHist} (hs : Same pid h h') (hd : Due pid key h) : Due pid key h' :=
  ⟨by rw [hs.current]; exact hd.1, by rw [hs.imports, hs.inserts]; exact hd.2⟩

/-- Plain operations, whatever came before. -/
theorem wp_plain {α : Type} {p : SqsProg α} (hp : p.Uses PlainOp) : wp (uniqueLawOf room pid) p (fun _ _ => True) w :=
  (keeping (P := fun _ => True) fun _ _ _ _ => trivial).uses hp trivial

theorem wp_ensurePending (event : S3Event) (queue : SqsQueue) (messageId : String) :
    wp (uniqueLawOf room pid) (ensurePending event queue messageId) (fun
      | .ok (some _), w => Due pid ⟨messageId, queue.id, event.key⟩ w.hist
      | _, _ => True) w := by
  refine wp_bind.mpr (wp_await fun w₁ _ hi r w₂ ha => ⟨promise_of ha ?_ ?_, ?_⟩)
  · intro key hk; cases hk
  · intro hm; cases hm
  rcases r with e | found
  · trivial
  cases found with
  | true => trivial
  | false =>
    have hclear : Clear pid ⟨messageId, queue.id, event.key⟩ w₂.hist := by
      obtain ⟨_, s, hx, rfl⟩ := ha
      obtain ⟨hno, _⟩ := exec_probe pid hx
      have hp : probes pid ⟨pid, SqsOp.existsForMessage ⟨messageId, queue.id, event.key⟩, .ok false⟩ = true := by
        simp [probes, probeOf]
      refine ⟨by simp [World.after, current, hp, probeOf], ?_⟩
      simp only [World.after, beforeProbe, hp, if_true]
      intro e he hk
      rw [hi.found e he _ hk] at hno
      cases hno
    refine wp_bind.mpr (wp_await fun w₃ hr hi r w₄ ha => ?_)
    have hc := hclear.same hr
    have hnone : ∀ key, insertOf ⟨pid, SqsOp.createEvent queue.id messageId event, r⟩ = some key →
        insertsOf key w₃.hist = [] := by
      intro key hk
      refine insertsOf_nil_iff.mpr fun e he hek => ?_
      have hkey : key = ⟨messageId, queue.id, event.key⟩ := by
        cases r with
        | ok id => cases hk; rfl
        | error e => cases hk
      rcases mem_probe he hek with h | h
      · exact ha.1 key hk e h hek
      · subst hkey; exact hc.2 e h hek
    refine ⟨promise_of ha hnone (fun hm => by cases hm), ?_⟩
    cases r with
    | error e => trivial
    | ok id =>
      obtain ⟨_, s, hx, rfl⟩ := ha
      have hle := hi.balanced pid ⟨messageId, queue.id, event.key⟩
      have hins : insertOf ⟨pid, SqsOp.createEvent queue.id messageId event, .ok id⟩ =
          some ⟨messageId, queue.id, event.key⟩ := rfl
      have hp : probes pid ⟨pid, SqsOp.createEvent queue.id messageId event, .ok id⟩ = false := by
        simp [probes, probeOf]
      refine ⟨?_, ?_⟩
      · simp only [World.after, current, hp, Bool.false_eq_true, if_false]
        exact hc.1
      · simp only [World.after, insertsOf_cons, importsOf_cons, hins, isImport, countBy_cons, if_true]
        simpa using hle

/-- The body of the import, with an import due. -/
theorem wp_importEvent (eventId : EventId) (event : S3Event) (queue : SqsQueue) (rd : Ready) {key : EventKey}
    (hw : Due pid key w.hist) : wp (uniqueLawOf room pid) (importEvent eventId event queue rd)
      (fun _ _ => True) w := by
  have kd := @keeping room pid (Due pid key) fun h h' => Due.same
  refine wp_seq (kd.uses (.await trivial) hw) (fun _ _ _ => trivial) fun _ w hw => ?_
  refine wp_seq (kd.uses (.await trivial) hw) (fun _ _ _ => trivial) fun structure_ w hw => ?_
  have himport : wp (uniqueLawOf room pid) (importTo eventId event (eventPath queue event) structure_)
      (fun _ _ => True) w := by
    obtain ⟨_ | _, err⟩ := structure_
    · exact wp_plain (uses_updateStatus trivial)
    · refine wp_bind.mpr (wp_await fun w₁ hr _ r w₂ ha => ⟨promise_of ha (fun key hk => by cases hk) ?_, ?_⟩)
      · intro _ k hk
        have hdue := hw.same hr
        rw [hdue.1] at hk
        cases hk
        exact hdue.2
      · cases r with
        | error e => trivial
        | ok answer => exact wp_plain (uses_updateStatus trivial)
  exact wp_seq himport (fun _ _ _ => trivial) fun _ w _ => wp_plain (.await trivial)

theorem wp_processS3Event (event : S3Event) (queue : SqsQueue) (messageId : String) :
    wp (uniqueLawOf room pid) (processS3Event event queue messageId) (fun _ _ => True) w := by
  refine wp_bind.mpr (wp_mono (fun x w hx => ?_) (wp_ensurePending event queue messageId))
  rcases x with e | _ | eventId
  · trivial
  · trivial
  · have kd := @keeping room pid (Due pid ⟨messageId, queue.id, event.key⟩) fun h h' => Due.same
    refine wp_seq (P := fun w => Due pid ⟨messageId, queue.id, event.key⟩ w.hist)
      ((kd.mono status_plain).uses (uses_prepare eventId queue) hx)
      (fun _ _ _ => trivial) fun r w hw => ?_
    cases r with
    | none => trivial
    | some r =>
      refine wp_catching.mpr (wp_mono (fun x w _ => ?_) (wp_importEvent eventId event queue r hw))
      cases x with
      | ok _ => trivial
      | error e => exact wp_plain ((uses_importFailed eventId e).mono status_plain)

theorem wp_handleMessages (queue : SqsQueue) (messages : List Message) (n : Nat) :
    wp (uniqueLawOf room pid) (handleMessages room queue messages n) (fun _ _ => True) w := by
  have hevents : ∀ messageId events n w,
      wp (uniqueLawOf room pid) (handleEvents queue messageId events n) (fun _ _ => True) w := by
    intro messageId events
    induction events with
    | nil => intro n w; trivial
    | cons event rest ih =>
      intro n w
      unfold handleEvents
      split
      · have hprocess : wp (uniqueLawOf room pid)
            (do processS3Event event queue messageId; return n + 1 : SqsProg Nat)
            (fun _ _ => True) w :=
          wp_seq (P := fun _ => True) (wp_processS3Event event queue messageId) (fun _ _ _ => trivial)
          fun _ _ _ => trivial
        refine wp_seq (P := fun _ => True) (wp_catching.mpr (wp_mono (fun x w _ => ?_) hprocess))
          (fun _ _ _ => trivial) fun n w _ => ih n w
        cases x with
        | ok _ => trivial
        | error e => exact wp_plain (uses_eventFailed fun _ => trivial)
      · exact ih n w
  induction messages generalizing n w with
  | nil => trivial
  | cons message rest ih =>
    refine wp_seq (P := fun _ => True) ?_ (fun _ _ _ => trivial) fun n w _ => ih n
    unfold handleMessage
    split
    · trivial
    · refine wp_seq (P := fun _ => True) (hevents _ _ n w) (fun _ _ _ => trivial) fun n w _ => ?_
      exact wp_plain (.bind (uses_deleteMessage trivial) fun _ => trivial)

end Worker

theorem UniqueInv.promise {pid : Nat} {w w' : SqsWorld room} (hi : UniqueInv w)
    (hp : UniquePromise pid w w') : UniqueInv w' := by
  obtain ⟨hkept, e, hpid, hh, hins, himp⟩ := hp
  refine ⟨fun key => ?_, fun x hx key hk => ?_, ?_⟩
  · rw [hh, insertsOf_cons]
    split
    · rename_i hk
      simp [(hins key hk).1]
    · exact hi.inserts key
  · rw [hh] at hx
    rcases List.mem_cons.mp hx with rfl | hx
    · exact (hins key hk).2
    · exact hkept key (hi.found x hx key hk)
  · rw [hh]
    exact hi.balanced.cons (by rw [hpid]; exact himp)

/-- Every worker, in the runs in which no two probes race. -/
def uniqueLaw (room : Nat) : Sound (pollers room) InsertOk where
  inv := UniqueInv
  rely pid a b := Same pid a.hist b.hist
  guar pid _ := UniquePromise pid
  allow pid w o r := InsertAllowed pid w.hist o r
  post _ _ _ _ := True
  refl pid w := Same.refl pid _
  trans pid a b c := Same.trans
  init s hs := ⟨fun _ => Nat.zero_le _, fun _ h => (by cases h), fun _ _ => Nat.le_refl _⟩
  keep pid t w w' := UniqueInv.promise
  others pid t q w w' hne hi hp := by
    obtain ⟨_, e, hpid, hh, _⟩ := hp
    rw [hh]
    exact same_other _ (by rw [hpid]; exact hne)
  outside w e s hi hx := by
    cases hx
    exact ⟨⟨hi.inserts, hi.found, hi.balanced⟩, fun q => Same.refl q _⟩
  allowed c e hg := hg
  stable _ _ _ _ _ _ _ := trivial
  code pid t w _ _ _ := by
    refine wp_pollSqsQueues (P := fun _ => True) ?_ ?_ pid trivial
    · exact (keeping (P := fun _ => True) fun _ _ _ _ => trivial).mono outer_plain
    · intro queue w _
      refine wp_seq (P := fun _ => True) (wp_plain (.await trivial)) (fun _ _ _ => trivial) fun messages w _ => ?_
      exact wp_handleMessages queue messages 0

/-- In every run every event has at most one pending row inserted and is imported at most
    once, exactly when no pending row of it commits between a worker's probe and the
    commit of that worker's own. -/
theorem import_once_iff {s : (pollers room).State} (hs : (pollers room).init s) (f : Sched (pollers room)) (n : Nat) :
    Once (conf s f n).w.hist ↔ ∀ m < n, ∀ e, event (conf s f m) (f m) = some e → InsertOk (conf s f m) e := by
  constructor
  · intro honce m hm e he key hk x hx hxk
    have hpos : 0 < (insertsOf key (conf s f m).w.hist).length :=
      List.length_pos_of_mem (List.mem_filter.mpr ⟨sinceProbe_subset hx, by simp [hxk]⟩)
    have htwo : (insertsOf key (conf s f (m + 1)).w.hist).length =
        (insertsOf key (conf s f m).w.hist).length + 1 := by
      have hh : (conf s f (m + 1)).w.hist = e :: (conf s f m).w.hist := by
        show (step (conf s f m) (f m)).w.hist = _
        rw [step_hist, he]
        rfl
      rw [hh, insertsOf_cons, if_pos hk]
      rfl
    have hle := ((conf_suffix (show m + 1 ≤ n by omega) (s := s) (f := f)).filter (insertOf · == some key)).length_le
    have := (honce key).1
    unfold insertsOf at this htwo hpos
    omega
  · intro hok
    have hi := ((uniqueLaw room).keeps (conf_reach hs hok)).1
    exact hi.balanced.once hi.inserts

/-- Two workers get the message. The first has probed when its lock expires; the second
    does its whole work; then the first goes on. -/
def raced : Sched (pollers 9) := sched
  ([.start (), .start ()] ++ List.replicate 6 (.run 0 (Store.answer 0 [theQueue] [putMessage "h0"])) ++
    [.env (60000 : Nat)] ++
    List.replicate 18 (.run 1 (Store.answer 1 [theQueue] [putMessage "h1"])) ++
    List.replicate 9 (.run 0 (Store.answer 0 [theQueue] [putMessage "h0"])))
  (.env (0 : Nat))

theorem raced_counts : (insertsOf putKey (conf idleStore raced 36).w.hist).length = 2 ∧
    (importsOf putKey (conf idleStore raced 36).w.hist).length = 2 := by decide +kernel

theorem import_once_raced : ¬ ∀ m < 36, ∀ e, event (conf idleStore raced m) (raced m) = some e →
    InsertOk (conf idleStore raced m) e := by
  intro h
  have := (@import_once_iff 9 idleStore ⟨rfl, rfl, rfl⟩ raced 36).mpr h putKey
  have := raced_counts
  omega

theorem imported_twice : (pollers 9).init idleStore ∧ ¬ Once (conf idleStore raced 36).w.hist := by
  refine ⟨⟨rfl, rfl, rfl⟩, fun h => ?_⟩
  have := h putKey
  have := raced_counts
  omega

end Connect.Sqs
