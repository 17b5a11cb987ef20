/-
  Connect.Sqs.LostUpdate — calls of `add_sqs_notification` and `remove_sqs_notification` on
  one bucket at the same time, from any number of requests and processes.

  A call reads the whole configuration of the bucket and puts the whole of it back, and S3
  does not tell it that another put came in between. What the bucket has in the end is the
  work of the calls in the lineage of its last put; a call outside it has returned True for
  nothing, unless it had nothing to do (`kept_iff`). Calls whose puts follow their own gets
  with no other put in between are all kept (`kept_of_isolated`), and two calls that both
  read before either writes are enough to lose one (`lost_update`).
-/

import Connect.Sqs.Notification
import Connect.Await.Pool
import Connect.Doc.ReadWrite

namespace Connect.Sqs

open Await Doc

inductive NotificationCall where
  | add (a : AddArgs)
  | remove (queueArn : String)
  deriving DecidableEq, Repr

variable {T L : Type}

namespace NotificationCall

def prog (bucket : String) : NotificationCall → S3Prog T L Bool
  | .add a => addSqsNotification bucket a
  | .remove queueArn => removeSqsNotification bucket queueArn

/-- The configuration a call puts for the one it got. -/
def config : NotificationCall → NotificationConfig T L → NotificationConfig T L
  | .add a => addConfig a
  | .remove queueArn => removeConfig queueArn

def queueArn : NotificationCall → String
  | .add a => a.queueArn
  | .remove queueArn => queueArn

/-- The Id of the entry an add makes. -/
def notificationId : NotificationCall → Option String
  | .add a => some a.notificationId
  | .remove _ => none

/-- The entry of an added queue is there, and no entry of a removed one. -/
def Met : NotificationCall → NotificationConfig T L → Prop
  | .add a, c => a.newConfig ∈ c.queues.getD []
  | .remove queueArn, c => ∀ cfg ∈ c.queues.getD [], cfg.queueArn ≠ some queueArn

end NotificationCall

variable [DecidableEq T] [DecidableEq L] (bucket : String) (calls : Nat → NotificationCall)
    (c₀ : NotificationConfig T L)

/-- A get answers with the bucket's configuration and a put replaces it; one that raises changes nothing. -/
def s3Exec (s : NotificationConfig T L) : (o : S3Op T L) → Except S3Exc o.Ret → Option (NotificationConfig T L)
  | .get _, .ok got => if s = (show NotificationConfig T L from got) then some s else none
  | .put _ config, .ok _ => some config
  | _, .error _ => some s

/-- The bucket's configuration, `c₀` at first; process `i` makes the call `calls i`. -/
def notifications : System (s3Sig T L) S3Exc Bool where
  State := NotificationConfig T L
  Env := Empty
  Task := Unit
  init := (· = c₀)
  exec := fun _ => s3Exec
  env := fun _ e => e.elim
  starts := fun _ _ => true
  code := fun pid _ => (calls pid).prog bucket

/-- A get that was answered reads, and a put that was answered writes. -/
def act (e : Event (s3Sig T L) S3Exc) : Option Act :=
  match e.op, e.ans with
  | .get _, .ok _ => some (.read e.pid)
  | .put _ _, .ok _ => some (.write e.pid)
  | _, .error _ => none

def acts (hist : List (Event (s3Sig T L) S3Exc)) : List Act := hist.filterMap act

/-! ## The statement -/

variable {bucket calls c₀}

/-- The calls made so far concern different queues, by their ARNs and by the Ids of the entries they add. -/
def Different (calls : Nat → NotificationCall) (n : Nat) : Prop :=
  ∀ i < n, ∀ j < n, i ≠ j → (calls i).queueArn ≠ (calls j).queueArn ∧
    ∀ k, (calls i).notificationId = some k → (calls j).notificationId ≠ some k

/-- Every call has returned True. -/
def AllTrue (c : Config (notifications bucket calls c₀)) : Prop := ∀ pid < c.next, c.procs pid = some (.ret true)

/-- The bucket's configuration. -/
def bucketConfig (c : Config (notifications bucket calls c₀)) : NotificationConfig T L := c.w.st

def AllMet (c : Config (notifications bucket calls c₀)) : Prop := ∀ pid < c.next, (calls pid).Met (bucketConfig c)

/-- The calls whose puts the bucket's configuration goes back to: the last one, the one whose
    configuration that one had got, and so on. -/
def landed (c : Config (notifications bucket calls c₀)) : List Nat := (lineage (acts c.w.hist)).writers

/-- The configuration at first had the entry of an added queue already; of a removed one it had
    none, but for entries that a landed add replaces by their Id. -/
def NothingToDo (c : Config (notifications bucket calls c₀)) : NotificationCall → Prop
  | .add a => a.newConfig ∈ c₀.queues.getD []
  | .remove queueArn =>
    ∀ cfg ∈ c₀.queues.getD [], cfg.queueArn = some queueArn →
      ∃ pid ∈ landed c, ∃ k, (calls pid).notificationId = some k ∧ cfg.id = some k

/-- Every call landed or had nothing to do. -/
def AllLanded (c : Config (notifications bucket calls c₀)) : Prop :=
  ∀ pid < c.next, pid ∈ landed c ∨ NothingToDo c (calls pid)

/-! ## One call -/

/-- What is left of a call that puts: it returns True, or raises. -/
def Returns (k : Except S3Exc Unit → S3Prog T L Bool) : Prop :=
  k (.ok ()) = .ret true ∧ ∀ e, ∃ e', k (.error e) = .raise e'

/-- How far a call is: `seen` is what it got, and `wrote` that its put was answered. -/
inductive Stage (bucket : String) (call : NotificationCall) (seen : NotificationConfig T L) (wrote : Prop) :
    S3Prog T L Bool → Prop
  | reading {k : Except S3Exc (NotificationConfig T L) → S3Prog T L Bool} (he : ∀ e, ∃ e', k (.error e) = .raise e')
      (hok : ∀ c, ∃ k', k (.ok c) = .op (S3Op.put bucket (call.config c)) k' ∧ Returns k') :
      Stage bucket call seen wrote (.op (S3Op.get bucket) k)
  | writing {k : Except S3Exc Unit → S3Prog T L Bool} (hk : Returns k) :
      Stage bucket call seen wrote (.op (S3Op.put bucket (call.config seen)) k)
  | returned (hw : wrote) : Stage bucket call seen wrote (.ret true)
  | raised (e : S3Exc) : Stage bucket call seen wrote (.raise e)

omit [DecidableEq T] [DecidableEq L] in
theorem Stage.mono {call : NotificationCall} {seen : NotificationConfig T L} {wrote wrote' : Prop}
    {p : S3Prog T L Bool}
    (h : Stage bucket call seen wrote p) (hw : wrote → wrote') : Stage bucket call seen wrote' p := by
  cases h with
  | reading he hok => exact .reading he hok
  | writing hk => exact .writing hk
  | returned h => exact .returned (hw h)
  | raised e => exact .raised e

omit [DecidableEq T] [DecidableEq L] in
theorem prog_stage (bucket : String) (call : NotificationCall) (seen : NotificationConfig T L) (wrote : Prop) :
    Stage bucket call seen wrote (call.prog bucket) := by
  cases call with
  | add a =>
    refine .reading (fun e => ?_) fun c => ⟨_, rfl, rfl, fun e => ?_⟩
    all_goals cases e <;> exact ⟨_, rfl⟩
  | remove queueArn =>
    refine .reading (fun e => ?_) fun c => ⟨_, rfl, rfl, fun e => ?_⟩
    all_goals cases e <;> exact ⟨_, rfl⟩

/-! ## Every interleaving -/

variable {c : Config (notifications bucket calls c₀)}

/-- The configuration and what each call has got are those of the history of gets and puts. -/
structure Inv (c : Config (notifications bucket calls c₀)) : Prop where
  doc : bucketConfig c = (Doc.run (fun i => (calls i).config) c₀ (acts c.w.hist)).doc
  stage : ∀ pid p, c.procs pid = some p →
    Stage bucket (calls pid) ((Doc.run (fun i => (calls i).config) c₀ (acts c.w.hist)).seen pid)
      (.write pid ∈ acts c.w.hist) p

omit [DecidableEq T] [DecidableEq L] in
theorem acts_cons_none {e : Event (s3Sig T L) S3Exc} {hist : List (Event (s3Sig T L) S3Exc)} (h : act e = none) :
    acts (e :: hist) = acts hist := List.filterMap_cons_none h

omit [DecidableEq T] [DecidableEq L] in
theorem acts_cons_some {e : Event (s3Sig T L) S3Exc} {hist : List (Event (s3Sig T L) S3Exc)} {a : Act}
    (h : act e = some a) :
    acts (e :: hist) = a :: acts hist := List.filterMap_cons_some h

omit [DecidableEq T] [DecidableEq L] in
theorem act_pid {e : Event (s3Sig T L) S3Exc} {a : Act} (h : act e = some a) :
    a = .read e.pid ∨ a = .write e.pid := by
  obtain ⟨pid, o, r⟩ := e
  cases o with
  | get b =>
    cases r with
    | ok got => exact .inl (Option.some.inj h).symm
    | error e => cases h
  | put b config =>
    cases r with
    | ok u => exact .inr (Option.some.inj h).symm
    | error e => cases h

omit [DecidableEq T] [DecidableEq L] in
/-- An operation of one call is none of another's. -/
theorem seen_others (hist : List (Event (s3Sig T L) S3Exc)) {e : Event (s3Sig T L) S3Exc} {q : Nat} (hq : q ≠ e.pid)
    (f : Nat → NotificationConfig T L → NotificationConfig T L) (c₀ : NotificationConfig T L) :
    (Doc.run f c₀ (acts (e :: hist))).seen q = (Doc.run f c₀ (acts hist)).seen q ∧
      (.write q ∈ acts hist → .write q ∈ acts (e :: hist)) := by
  cases ha : act e with
  | none =>
    rw [acts_cons_none ha]
    exact ⟨rfl, id⟩
  | some a =>
    rw [acts_cons_some ha]
    refine ⟨run_seen_ne f c₀ ?_, List.mem_cons_of_mem _⟩
    intro h
    subst h
    rcases act_pid ha with he | he
    · exact hq (Act.read.inj he)
    · cases he

theorem Inv.ran (h : Inv c) {e : Event (s3Sig T L) S3Exc} {s : NotificationConfig T L} {p p' : S3Prog T L Bool}
    (hdoc : s = (Doc.run (fun i => (calls i).config) c₀ (acts (e :: c.w.hist))).doc)
    (hpp : p = p')
    (hp : Stage bucket (calls e.pid) ((Doc.run (fun i => (calls i).config) c₀ (acts (e :: c.w.hist))).seen e.pid)
      (.write e.pid ∈ acts (e :: c.w.hist)) p') :
    Inv { c with w := ⟨s, e :: c.w.hist⟩, procs := upd c.procs e.pid (some p) } := by
  subst hpp
  refine ⟨hdoc, fun q p' hq => ?_⟩
  by_cases hqe : q = e.pid
  · subst hqe
    simp only [upd_same, Option.some.injEq] at hq
    subst hq
    exact hp
  · simp only [upd_ne _ _ hqe] at hq
    obtain ⟨hseen, hwrote⟩ := seen_others c.w.hist hqe (fun i => (calls i).config) c₀
    rw [hseen]
    exact (h.stage q p' hq).mono hwrote

theorem inv_step (h : Inv c) (ch : Choice (notifications bucket calls c₀)) : Inv (step c ch) := by
  have hm := step_moved c ch
  revert hm
  generalize step c ch = c'
  intro hm
  cases hm with
  | idle => exact h
  | crashed pid =>
    refine ⟨h.doc, fun q p hp => ?_⟩
    by_cases hq : q = pid
    · subst hq
      simp at hp
    · simp only [upd_ne _ _ hq] at hp
      exact h.stage q p hp
  | started t =>
    refine ⟨h.doc, fun q p hp => ?_⟩
    by_cases hq : q = c.next
    · subst hq
      simp only [upd_same, Option.some.injEq] at hp
      subst hp
      exact prog_stage bucket (calls c.next) _ _
    · simp only [upd_ne _ _ hq] at hp
      exact h.stage q p hp
  | @moved e => exact e.elim
  | @ran pid o k r s hp hx =>
    have hstage := h.stage pid _ hp
    cases hstage with
    | reading he hok =>
      cases r with
      | error e =>
        obtain ⟨e', hk⟩ := he e
        cases hx
        exact h.ran (e := ⟨pid, .get bucket, .error e⟩) h.doc hk (.raised e')
      | ok got =>
        obtain ⟨k', hk, hret⟩ := hok got
        have hif : (if bucketConfig c = (show NotificationConfig T L from got) then some (bucketConfig c)
            else none) = some s := hx
        split at hif
        · rename_i hgot
          cases hif
          have hseen : (Doc.run (fun i => (calls i).config) c₀ (.read pid :: acts c.w.hist)).seen pid = got := by
            simp only [Doc.run, if_true]
            rw [← h.doc, hgot]
          refine h.ran (e := ⟨pid, .get bucket, .ok got⟩) h.doc hk ?_
          rw [acts_cons_some rfl, hseen]
          exact .writing hret
        · cases hif
    | writing hk =>
      cases r with
      | error e =>
        obtain ⟨e', hke⟩ := hk.2 e
        cases hx
        exact h.ran (e := ⟨pid, .put bucket _, .error e⟩) h.doc hke (.raised e')
      | ok u =>
        cases hx
        exact h.ran (e := ⟨pid, .put bucket _, .ok ()⟩) rfl hk.1 (.returned List.mem_cons_self)

theorem inv {good : Config (notifications bucket calls c₀) → Event (s3Sig T L) S3Exc → Prop}
    (h : Reach good c) : Inv c := by
  induction h with
  | init s hs => exact ⟨hs, fun pid p hp => by cases hp⟩
  | step ch _ _ ih => exact inv_step ih ch

/-! ## What the lineage leaves -/

namespace NotificationCall

def Puts : NotificationCall → QueueConfig → Prop
  | .add a, cfg => cfg = a.newConfig
  | .remove _, _ => False

def Keeps : NotificationCall → QueueConfig → Prop
  | .add a, cfg => cfg.id ≠ some a.notificationId ∧ cfg.queueArn ≠ some a.queueArn
  | .remove queueArn, cfg => cfg.queueArn ≠ some queueArn

omit [DecidableEq T] [DecidableEq L] in
theorem mem_config (call : NotificationCall) (c : NotificationConfig T L) (cfg : QueueConfig) :
    cfg ∈ (call.config c).queues.getD [] ↔ call.Puts cfg ∨ (cfg ∈ c.queues.getD [] ∧ call.Keeps cfg) := by
  cases call with
  | add a =>
    simp only [config, add_queues, Option.getD_some, List.mem_append, List.mem_filter, List.mem_singleton,
      Puts, Keeps, AddArgs.others, Bool.and_eq_true, bne_iff_ne]
    exact or_comm
  | remove queueArn =>
    have hqueues : (removeConfig queueArn c).queues.getD [] =
        (c.queues.getD []).filter fun cfg => cfg.queueArn != some queueArn :=
      filled_getD (some ((c.queues.getD []).filter fun cfg : QueueConfig => cfg.queueArn != some queueArn))
    simp only [config, hqueues, List.mem_filter, Puts, Keeps, bne_iff_ne, false_or]

end NotificationCall

omit [DecidableEq T] [DecidableEq L] in
theorem keeps_of_different {n : Nat} (hd : Different calls n) {i j : Nat} (hi : i < n) (hj : j < n) (hij : i ≠ j)
    {cfg : QueueConfig} (hp : (calls i).Puts cfg) : (calls j).Keeps cfg := by
  obtain ⟨harn, hid⟩ := hd i hi j hj hij
  cases hci : calls i with
  | remove queueArn =>
    rw [hci] at hp
    cases hp
  | add a =>
    rw [hci] at hp harn hid
    cases hp
    cases hcj : calls j with
    | add b =>
      rw [hcj] at harn hid
      exact ⟨fun he => hid a.notificationId rfl he.symm, fun he => harn (Option.some.inj he)⟩
    | remove queueArn =>
      rw [hcj] at harn
      exact fun he => harn (Option.some.inj he)

theorem landed_lt {good : Config (notifications bucket calls c₀) → Event (s3Sig T L) S3Exc → Prop}
    (h : Reach good c) :
    ∀ pid ∈ landed c, pid < c.next := by
  intro pid hpid
  obtain ⟨e, he, hact⟩ := List.mem_filterMap.mp (write_of_lineage.1 pid hpid)
  have hlt := (fresh h).hist e he
  rcases act_pid hact with hr | hw
  · cases hr
  · rw [Act.write.inj hw]
    exact hlt

/-- An entry is in the bucket's configuration if a landed call put it, or if it was there and
    every landed call keeps it. -/
theorem mem_bucketConfig {good : Config (notifications bucket calls c₀) → Event (s3Sig T L) S3Exc → Prop}
    (h : Reach good c) (hd : Different calls c.next) (cfg : QueueConfig) :
    cfg ∈ (bucketConfig c).queues.getD [] ↔
      (∃ i ∈ landed c, (calls i).Puts cfg) ∨ (cfg ∈ c₀.queues.getD [] ∧ ∀ i ∈ landed c, (calls i).Keeps cfg) := by
  let edits : Edits (fun (d : NotificationConfig T L) cfg => cfg ∈ d.queues.getD []) fun i => (calls i).config :=
    ⟨fun i => (calls i).Puts, fun i => (calls i).Keeps, fun i => (calls i).mem_config⟩
  rw [(inv h).doc, (run_eq _ _ _).1]
  exact edits.holds_foldr (fun i hi j hj hij _ => keeps_of_different hd (landed_lt h i hi)
    (landed_lt h j hj) hij) c₀ cfg

theorem met_iff {good : Config (notifications bucket calls c₀) → Event (s3Sig T L) S3Exc → Prop} (h : Reach good c)
    (hd : Different calls c.next) {pid : Nat} (hpid : pid < c.next) :
    (calls pid).Met (bucketConfig c) ↔ pid ∈ landed c ∨ NothingToDo c (calls pid) := by
  cases hcall : calls pid with
  | add a =>
    simp only [NotificationCall.Met, NothingToDo, mem_bucketConfig h hd]
    have hputs : (calls pid).Puts a.newConfig := by
      rw [hcall]
      rfl
    constructor
    · intro h
      rcases h with ⟨i, hi, hp⟩ | ⟨hold, -⟩
      · left
        by_cases he : i = pid
        · exact he ▸ hi
        · have hkeep := keeps_of_different hd (landed_lt h i hi) hpid he hp
          rw [hcall] at hkeep
          exact absurd rfl hkeep.1
      · exact .inr hold
    · intro hor
      by_cases hl : pid ∈ landed c
      · exact .inl ⟨pid, hl, hputs⟩
      · refine .inr ⟨hor.resolve_left hl, fun i hi => ?_⟩
        have hne : pid ≠ i := by
          intro h
          subst h
          exact hl hi
        exact keeps_of_different hd hpid (landed_lt h i hi) hne hputs
  | remove queueArn =>
    simp only [NotificationCall.Met, NothingToDo, mem_bucketConfig h hd]
    -- An add among the calls is another one, so what it puts is of another queue.
    have hputs : ∀ i ∈ landed c, ∀ cfg, (calls i).Puts cfg → cfg.queueArn ≠ some queueArn := by
      intro i hi cfg hp
      have hne : i ≠ pid := by
        intro h
        subst h
        rw [hcall] at hp
        cases hp
      have hkeep := keeps_of_different hd (landed_lt h i hi) hpid hne hp
      rw [hcall] at hkeep
      exact hkeep
    constructor
    · intro hmet
      by_cases hl : pid ∈ landed c
      · exact .inl hl
      · refine .inr fun cfg hcfg harn => ?_
        by_cases hex : ∃ i ∈ landed c, ∃ k, (calls i).notificationId = some k ∧ cfg.id = some k
        · exact hex
        · refine absurd harn (hmet cfg (.inr ⟨hcfg, fun i hi => ?_⟩))
          have hne : i ≠ pid := by
            intro h
            subst h
            exact hl hi
          have harns := (hd i (landed_lt h i hi) pid hpid hne).1
          rw [hcall] at harns
          cases hi' : calls i with
          | add b =>
            rw [hi'] at harns
            exact ⟨fun he => hex ⟨i, hi, b.notificationId, by rw [hi']; rfl, he⟩,
              fun he => harns (Option.some.inj (he.symm.trans harn))⟩
          | remove queueArn' =>
            rw [hi'] at harns
            exact fun he => harns (Option.some.inj (he.symm.trans harn))
    · intro hor cfg h
      rcases h with ⟨i, hi, hp⟩ | ⟨hold, hkeep⟩
      · exact hputs i hi cfg hp
      · intro harn
        rcases hor with hl | hnothing
        · have hk := hkeep pid hl
          rw [hcall] at hk
          exact hk harn
        · obtain ⟨i, hi, k, hk, hid⟩ := hnothing cfg hold harn
          have hki := hkeep i hi
          cases hi' : calls i with
          | add b =>
            rw [hi'] at hk hki
            exact hki.1 (hid.trans hk.symm)
          | remove queueArn' =>
            rw [hi'] at hk
            cases hk

/-- At every moment, the bucket's configuration is what all the calls made it if and only if each
    of them landed or had nothing to do. -/
theorem kept_iff {c : Config (notifications bucket calls c₀)} (h : Reach any c) (hd : Different calls c.next) :
    AllMet c ↔ AllLanded c := by
  constructor
  · intro hk pid hpid
    exact (met_iff h hd hpid).mp (hk pid hpid)
  · intro hl pid hpid
    exact (met_iff h hd hpid).mpr (hl pid hpid)

/-! ## One put at a time -/

/-- A put comes with no other put since its call's get. -/
def Undisturbed (c : Config (notifications bucket calls c₀)) (e : Event (s3Sig T L) S3Exc) : Prop :=
  act e = some (.write e.pid) → sawLast e.pid (acts c.w.hist) = true

theorem acts_isolated (h : Reach Undisturbed c) : Isolated (acts c.w.hist) := by
  induction h with
  | init s hs => trivial
  | @step c ch _ hgood ih =>
    rw [step_hist]
    cases he : event c ch with
    | none => exact ih
    | some e =>
      show Isolated (acts (e :: c.w.hist))
      cases ha : act e with
      | none =>
        rw [acts_cons_none ha]
        exact ih
      | some a =>
        rw [acts_cons_some ha]
        rcases act_pid ha with rfl | rfl
        · exact ih
        · exact ⟨hgood e he ha, ih⟩

/-- Calls whose puts each follow their own get with no put in between: once all have returned True, all are kept. -/
theorem kept_of_isolated (h : Reach Undisturbed c) (hd : Different calls c.next) (hall : AllTrue c) : AllMet c := by
  intro pid hpid
  refine (met_iff h hd hpid).mpr (.inl ?_)
  unfold landed
  rw [lineage_isolated (acts_isolated h)]
  have hstage := (inv h).stage pid _ (hall pid hpid)
  cases hstage with
  | returned hw => exact mem_writers.mpr hw

/-! ## Two calls -/

/-- Two queues are added to a bucket without any. -/
def twoAdds : Nat → NotificationCall
  | 0 => .add { queueArn := "arn:aws:sqs:us-east-1:1:a", notificationId := "LucidLink-a" }
  | _ => .add { queueArn := "arn:aws:sqs:us-east-1:1:b", notificationId := "LucidLink-b" }

abbrev twoQueues := notifications "bucket" twoAdds ({} : NotificationConfig Unit Unit)

/-- The bucket answers. -/
def answer (s : NotificationConfig Unit Unit) : (o : S3Op Unit Unit) → Except S3Exc o.Ret
  | .get _ => .ok s
  | .put _ _ => .ok ()

/-- Both get before either puts. -/
def interleaved : List (Choice twoQueues) :=
  [.start (), .start (), .run 0 answer, .run 1 answer, .run 0 answer, .run 1 answer]

/-- One after the other. -/
def inTurn : List (Choice twoQueues) :=
  [.start (), .start (), .run 0 answer, .run 0 answer, .run 1 answer, .run 1 answer]

def after (chs : List (Choice twoQueues)) : Config twoQueues :=
  conf ({} : NotificationConfig Unit Unit) (sched chs (.crash 2)) chs.length

theorem after_reach (chs : List (Choice twoQueues)) : Reach any (after chs) := conf_reach rfl fun _ _ _ _ => trivial

theorem twoAdds_different : Different twoAdds 2 := by
  intro i hi j hj hij
  have hcases : i = 0 ∧ j = 1 ∨ i = 1 ∧ j = 0 := by omega
  rcases hcases with ⟨rfl, rfl⟩ | ⟨rfl, rfl⟩
  all_goals
    refine ⟨by decide, fun k hk hk' => ?_⟩
    cases hk
    revert hk'
    decide

/-- One after the other, both queues are there. -/
theorem kept_iff_inTurn : AllMet (after inTurn) := by
  refine (kept_iff (after_reach inTurn) twoAdds_different).mpr fun pid hpid => .inl ?_
  have hlanded : landed (after inTurn) = [1, 0] := by decide
  have hlt : pid < 2 := hpid
  rw [hlanded]
  simp
  omega

/-- Both calls returned True, and the first queue's entry is gone. -/
theorem lost_update : Reach any (after interleaved) ∧ Different twoAdds (after interleaved).next ∧
    AllTrue (after interleaved) ∧
    ¬AllMet (after interleaved) := by
  refine ⟨after_reach interleaved, twoAdds_different, ?_, ?_⟩
  · intro pid hpid
    have hlt : pid < 2 := hpid
    have hcases : pid = 0 ∨ pid = 1 := by omega
    rcases hcases with rfl | rfl <;> rfl
  · intro hk
    have hmet := hk 0 (by decide)
    simp only [twoAdds, NotificationCall.Met] at hmet
    revert hmet
    decide

end Connect.Sqs
